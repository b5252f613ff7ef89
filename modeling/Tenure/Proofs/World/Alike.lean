import Tenure.Proofs.Election.Exclusion
import Tenure.Proofs.Election.Renumbering

/-!
# Worlds that look alike from a key

Two worlds look alike from a key of a store if the contenders for it are the same in both, up to
the numbers of revisions, and so is the row under it. What the others do does not show.

- **Looking alike** (`Alike`): the relation, with the number of each revision. One publisher may
  be in different states in the two worlds.
- **Aloof steps** (`Aloof`, `Alike.both`): steps that do not show from the key. Turns of other
  contenders and of loops are such steps (`aloof_of_effect`, `aloof_of_beat`).
- **Calls** (`Alike.modifyContender`, `Alike.modifyPublisher`, `Alike.enrol`, `Alike.setStore`):
  what is done in both worlds at once.
-/

namespace Tenure

open Election Lease

/-- What decides what calls on a publisher do to its contender. -/
def Publisher.control (p : Publisher) : Bool × Bool × Bool × Option Nat :=
  (p.gated, p.started, p.cancelled, p.stopAt?)

namespace World

/-- What new contenders are told apart by. -/
def register (w : World) : String × Nat := (w.host, w.born)

section Register

theorem register_hearAll (w : World) (y : Candidacy) (id : String) (notes : List Note) :
    (notes.foldl (hear y id) w).register = w.register := by
  induction notes generalizing w with
  | nil => rfl
  | cons n notes ih =>
    obtain ⟨publishers, metrics, heq, -⟩ := hear_eq w y id n
    rw [List.foldl_cons, ih, heq]
    rfl

theorem register_beginWait (w : World) (id : String) (i : Nat) (interval : Duration) (wait : Wait)
    (draw : Nat) : (w.beginWait id i interval wait draw).register = w.register := by
  cases wait with
  | plain => rfl
  | backoff strategy failures =>
    simp only [beginWait]
    cases strategy.next failures draw <;> rfl

theorem register_concludeRun (w : World) (id : String) (i : Nat) (c : Contender) (r : Run)
    (answer? : Option Answer) (draw : Nat) :
    (w.concludeRun id i c r answer? draw).register = w.register := by
  simp only [concludeRun, register_beginWait]
  exact register_hearAll ..

theorem register_actOnStore (w : World) (id : String) (i : Nat) (c : Contender) (r : Run)
    (q : Request) (draw : Nat) : (w.actOnStore id i c r q draw).register = w.register := by
  simp only [actOnStore]
  split
  · rfl
  · exact register_concludeRun ..

theorem register_campaign (w : World) (id : String) (i : Nat) (c : Contender) (r : Run)
    (draw : Nat) : (w.campaign id i c r draw).register = w.register := by
  simp only [campaign]
  split
  · exact register_concludeRun ..
  · split
    · exact register_actOnStore ..
    · rfl

theorem register_pollRun (w : World) (id : String) (i draw : Nat) :
    (w.pollRun id i draw).register = w.register := by
  simp only [pollRun]
  split
  · rfl
  · split
    · rfl
    · split
      · split
        · rfl
        · split
          · rfl
          · exact register_campaign ..
      · split
        · rfl
        · split
          · exact register_actOnStore ..
          · rfl
      · split
        · rfl
        · split
          · exact register_campaign ..
          · rfl
      · rfl
      · rfl

theorem register_sendBeat (w : World) (id : String) (j : Nat) (p : Publisher) (t : Ticker)
    (m : Message) : (w.sendBeat id j p t m).register = w.register := by
  simp only [sendBeat, countSent]
  split <;> rfl

theorem register_pollLoop (w : World) (id : String) (j : Nat) :
    (w.pollLoop id j).register = w.register := by
  simp only [pollLoop]
  split
  · rfl
  · split
    · rfl
    · split
      · have (b : Bool) (f : Metrics.Registry → Metrics.Registry) :
            (if b = true then w else w.modifyMetrics f).register = w.register := by
          split <;> rfl
        split <;> exact this _ _
      · split
        · rfl
        · split
          · rfl
          · split
            · rfl
            · simp only [beat]
              split
              · exact register_sendBeat ..
              · rfl
      · split
        · rfl
        · split
          · exact register_sendBeat ..
          · rfl
      · rfl

end Register

/-! ## Looking alike -/

/-- Nobody goes by the name who contends for something else. -/
def Partakes (w : World) (bucket key id : String) : Prop :=
  ∀ c, w.contenders.get? id = some c → c.candidacy.Contends bucket key

/-- The worlds look alike from a key, up to the numbers of revisions and to a publisher `b`. -/
structure Alike (ρ : Nat → Nat) (bucket key b : String) (w v : World) : Prop where
  now : v.now = w.now
  register : v.register = w.register
  contenders : ∀ id, Option.Rel (fun c d => d.candidacy = c.candidacy ∧
    (c.candidacy.Contends bucket key → d = c.renumber ρ)) (w.contenders.get? id)
      (v.contenders.get? id)
  publishers : ∀ id, Option.Rel (fun p q => id ≠ b → q.control = p.control)
    (w.publishers.get? id) (v.publishers.get? id)
  delay : (v.bucket bucket).delay = (w.bucket bucket).delay
  mirrors : Store.Mirrors ρ key (w.bucket bucket).store (v.bucket bucket).store
  notes : ∀ id, w.Partakes bucket key id →
    v.notes id = (w.notes id).map fun x => (x.1, x.2.renumber ρ)

/-- A step that does not show from the key. -/
structure Aloof (bucket key b : String) (w u : World) : Prop where
  now : u.now = w.now
  register : u.register = w.register
  contenders : ∀ id, Option.Rel (fun c d => d.candidacy = c.candidacy ∧
    (c.candidacy.Contends bucket key → d = c)) (w.contenders.get? id) (u.contenders.get? id)
  publishers : ∀ id, Option.Rel (fun p q => id ≠ b → q.control = p.control)
    (w.publishers.get? id) (u.publishers.get? id)
  delay : (u.bucket bucket).delay = (w.bucket bucket).delay
  available : (u.bucket bucket).store.available = (w.bucket bucket).store.available
  row : (u.bucket bucket).store.rows.get? key = (w.bucket bucket).store.rows.get? key
  notes : ∀ id, w.Partakes bucket key id → u.notes id = w.notes id

section

variable {ρ : Nat → Nat} {bucket key b : String} {w v w' v' : World}

theorem Alike.fresh (ρ : Nat → Nat) (bucket key b host : String) (wall : Int) (now : Nat) :
    Alike ρ bucket key b (World.fresh host wall now) (World.fresh host wall now) :=
  ⟨rfl, rfl, fun _ => .none, fun _ => .none, rfl, ⟨rfl, rfl⟩, fun _ _ => rfl⟩

theorem Alike.partakes (h : Alike ρ bucket key b w v) (id : String) :
    v.Partakes bucket key id ↔ w.Partakes bucket key id :=
  rel_forall (fun same => by rw [same.1]) (h.contenders id)

theorem Aloof.partakes (h : Aloof bucket key b w w') (id : String) :
    w'.Partakes bucket key id ↔ w.Partakes bucket key id :=
  rel_forall (fun same => by rw [same.1]) (h.contenders id)

theorem Aloof.refl (bucket key b : String) (w : World) : Aloof bucket key b w w :=
  ⟨rfl, rfl, fun _ => rel_refl (fun _ => ⟨rfl, fun _ => rfl⟩) _,
    fun _ => rel_refl (fun _ _ => rfl) _, rfl, rfl, rfl, fun _ _ => rfl⟩

/-- Worlds look alike after steps that do not show. -/
theorem Alike.both (h : Alike ρ bucket key b w v) (hw : Aloof bucket key b w w')
    (hv : Aloof bucket key b v v') : Alike ρ bucket key b w' v' where
  now := by rw [hv.now, h.now, hw.now]
  register := by rw [hv.register, h.register, hw.register]
  contenders id := by
    refine rel_both (fun same samew samev => ⟨?_, fun contends => ?_⟩) (h.contenders id)
      (hw.contenders id) (hv.contenders id)
    · rw [samev.1, same.1, samew.1]
    · rw [samew.1] at contends
      rw [samev.2 (same.1 ▸ contends), same.2 contends, samew.2 contends]
  publishers id :=
    rel_both (fun same samew samev hid => by rw [samev hid, same hid, samew hid])
      (h.publishers id) (hw.publishers id) (hv.publishers id)
  delay := by rw [hv.delay, h.delay, hw.delay]
  mirrors := ⟨by rw [hv.available, h.mirrors.available, hw.available],
    by rw [hv.row, h.mirrors.row, hw.row]⟩
  notes id hid := by
    rw [hw.partakes] at hid
    rw [hv.notes id ((h.partakes id).2 hid), h.notes id hid, hw.notes id hid]

/-! ## Aloof steps -/

/-- The contender, if there is one, contends for something else. -/
def Strays (w : World) (bucket key id : String) : Prop :=
  ∀ c, w.contenders.get? id = some c → ¬ c.candidacy.Contends bucket key

theorem Aloof.trans {w'' : World} (h : Aloof bucket key b w w') (h' : Aloof bucket key b w' w'') :
    Aloof bucket key b w w'' where
  now := h'.now.trans h.now
  register := h'.register.trans h.register
  contenders id := by
    refine rel_trans (fun same same' => ⟨same'.1.trans same.1, fun contends => ?_⟩)
      (h.contenders id) (h'.contenders id)
    rw [same'.2 (same.1 ▸ contends), same.2 contends]
  publishers id :=
    rel_trans (fun same same' hid => (same' hid).trans (same hid)) (h.publishers id)
      (h'.publishers id)
  delay := h'.delay.trans h.delay
  available := h'.available.trans h.available
  row := h'.row.trans h.row
  notes id hid := (h'.notes id ((h.partakes id).2 hid)).trans (h.notes id hid)

theorem Aloof.strays (h : Aloof bucket key b w w') {id : String} (hid : w.Strays bucket key id) :
    w'.Strays bucket key id :=
  (rel_forall (fun same => by rw [same.1]) (h.contenders id)).2 hid

theorem Alike.strays (h : Alike ρ bucket key b w v) {id : String} (hid : w.Strays bucket key id) :
    v.Strays bucket key id :=
  (rel_forall (fun same => by rw [same.1]) (h.contenders id)).2 hid

theorem aloof_modifyMetrics (w : World) (f : Metrics.Registry → Metrics.Registry) :
    Aloof bucket key b w (w.modifyMetrics f) :=
  ⟨rfl, rfl, (Aloof.refl bucket key b w).contenders, (Aloof.refl bucket key b w).publishers,
    rfl, rfl, rfl, fun _ _ => rfl⟩

theorem aloof_modifyContender {id : String} (hid : w.Strays bucket key id)
    {f : Contender → Contender} (hf : ∀ c, (f c).candidacy = c.candidacy) :
    Aloof bucket key b w (w.modifyContender id f) where
  now := rfl
  register := rfl
  contenders id' := by
    rw [get?_contenders_modify]
    split
    · rename_i heq
      subst heq
      cases hc : w.contenders.get? id with
      | none => exact .none
      | some c => exact .some ⟨hf c, fun contends => absurd contends (hid c hc)⟩
    · exact (Aloof.refl bucket key b w).contenders id'
  publishers := (Aloof.refl bucket key b w).publishers
  delay := rfl
  available := rfl
  row := rfl
  notes _ _ := rfl

theorem aloof_modifyPublisher {id : String} {f : Publisher → Publisher}
    (hf : id ≠ b → ∀ p : Publisher, (f p).control = p.control) :
    Aloof bucket key b w (w.modifyPublisher id f) where
  now := rfl
  register := rfl
  contenders := (Aloof.refl bucket key b w).contenders
  publishers id' := by
    rw [get?_publishers_modify]
    split
    · rename_i heq
      subst heq
      cases w.publishers.get? id with
      | none => exact .none
      | some p => exact .some fun hid => hf hid p
    · exact (Aloof.refl bucket key b w).publishers id'
  delay := rfl
  available := rfl
  row := rfl
  notes _ _ := rfl

theorem control_hearAll (p : Publisher) (notes : List Note) :
    (p.hearAll notes).control = p.control := by
  obtain ⟨paused, h⟩ := p.hearAll_eq notes
  rw [h]
  rfl

/-- A turn of a contender for something else does not show. -/
theorem aloof_of_effect {id : String} {c : Contender} (hc : w.contenders.get? id = some c)
    (hid : w.Strays bucket key id) {now delay draw i : Nat} {o : Election.Outcome}
    (turn : Turn now delay draw c (w.bucket c.candidacy.bucket).store i o)
    (effect : Effect w id c.candidacy o w') (register : w'.register = w.register) :
    Aloof bucket key b w w' where
  now := effect.now
  register := register
  contenders id' := by
    rw [effect.contenders]
    split
    · rename_i heq
      subst heq
      rw [hc]
      exact .some ⟨turn.candidacy, fun contends => absurd contends (hid c hc)⟩
    · exact (Aloof.refl bucket key b w).contenders id'
  publishers id' := by
    rw [effect.publishers]
    split
    · cases w.publishers.get? id' with
      | none => exact .none
      | some p => exact .some fun _ => control_hearAll p _
    · exact (Aloof.refl bucket key b w).publishers id'
  delay := by
    rw [effect.bucket]
    split <;> rfl
  available := by
    rw [effect.bucket]
    split
    · rename_i heq
      rw [← heq]
      exact turn.available
    · rfl
  row := by
    rw [effect.bucket]
    split
    · rename_i heq
      rw [← heq]
      exact turn.get?_rows_of_ne fun hkey => hid c hc ⟨heq, hkey⟩
    · rfl
  notes id' hid' := by
    rw [effect.notes, if_neg, List.nil_append]
    rintro rfl
    exact hid c hc (hid' c hc)

/-- A turn of a loop does not show. -/
theorem aloof_of_beat {id : String} {p : Publisher} (hp : w.publishers.get? id = some p)
    {now j : Nat} {wall : Int} {o : Publisher.Outcome}
    (beat : p.Beat now wall (w.outbox p.outbox) j o) (effect : BeatEffect w id j p o w')
    (register : w'.register = w.register) : Aloof bucket key b w w' where
  now := effect.now
  register := register
  contenders := effect.contenders ▸ (Aloof.refl bucket key b w).contenders
  publishers id' := by
    rw [effect.publishers]
    split
    · rename_i heq
      subst heq
      obtain ⟨loops, h⟩ := beat.exists_loops
      rw [hp, h]
      exact .some fun _ => rfl
    · exact (Aloof.refl bucket key b w).publishers id'
  delay := by rw [bucket_congr effect.buckets]
  available := by rw [bucket_congr effect.buckets]
  row := by rw [bucket_congr effect.buckets]
  notes id' _ := effect.notes id'

theorem aloof_cancelPublisher (w : World) (hb : w.Strays bucket key b) :
    Aloof bucket key b w (w.cancelPublisher b) := by
  have cancels : Aloof bucket key b w (w.modifyPublisher b ({ · with cancelled := true })) :=
    aloof_modifyPublisher fun h => absurd rfl h
  exact cancels.trans (aloof_modifyContender (cancels.strays hb) fun _ => rfl)

theorem aloof_callRun (w : World) (hb : w.Strays bucket key b) (cancelled : Bool) :
    Aloof bucket key b w (w.callRun b cancelled) :=
  aloof_modifyContender hb fun _ => rfl

theorem aloof_runPublisher (w : World) (hb : w.Strays bucket key b) :
    Aloof bucket key b w (w.runPublisher b).1 := by
  simp only [World.runPublisher]
  split
  · exact .refl ..
  · split
    · exact .refl ..
    · rename_i p _ _
      have announces : Aloof bucket key b w (w.modifyMetrics (announce p)) :=
        aloof_modifyMetrics w _
      refine Aloof.trans ?_ (aloof_modifyPublisher fun h => absurd rfl h)
      split
      · exact announces.trans (aloof_modifyContender (announces.strays hb) fun _ => rfl)
      · exact announces

theorem aloof_startPublisher (w : World) (hb : w.Strays bucket key b) (cancelled : Bool) :
    Aloof bucket key b w (w.startPublisher b cancelled).1 := by
  simp only [World.startPublisher]
  split
  · have cancels := aloof_cancelPublisher w hb
    exact cancels.trans (aloof_runPublisher _ (cancels.strays hb))
  · exact aloof_runPublisher w hb

theorem aloof_pollClosing (w : World) (id : String) :
    Aloof bucket key b w (w.pollClosing id) := by
  simp only [World.pollClosing]
  split
  · exact .refl ..
  · split
    · have closes : Aloof bucket key b w
          (w.modifyPublisher id fun p => { p with paused := true, closing := .done }) :=
        aloof_modifyPublisher fun _ _ => rfl
      exact closes.trans (aloof_modifyMetrics ..)
    · exact .refl ..

/-- What is done to other keys of the store does not show. -/
theorem aloof_setStore (w : World) (name : String) {s : Store}
    (available : name = bucket → s.available = (w.bucket name).store.available)
    (row : name = bucket → s.rows.get? key = (w.bucket name).store.rows.get? key) :
    Aloof bucket key b w (w.setStore name s) where
  now := rfl
  register := rfl
  contenders := (Aloof.refl bucket key b w).contenders
  publishers := (Aloof.refl bucket key b w).publishers
  delay := by
    rw [bucket_setStore]
    split <;> rfl
  available := by
    rw [bucket_setStore]
    split
    · rename_i heq
      subst heq
      exact available rfl
    · rfl
  row := by
    rw [bucket_setStore]
    split
    · rename_i heq
      subst heq
      exact row rfl
    · rfl
  notes _ _ := rfl

/-! ## What is done in both worlds -/

theorem Alike.modifyContender (h : Alike ρ bucket key b w v) (id : String)
    {f : Contender → Contender} (hf : ∀ c, (f c).candidacy = c.candidacy)
    (hr : ∀ c, (f c).renumber ρ = f (c.renumber ρ)) :
    Alike ρ bucket key b (w.modifyContender id f) (v.modifyContender id f) where
  now := h.now
  register := h.register
  contenders id' := by
    rw [get?_contenders_modify, get?_contenders_modify]
    refine rel_map (fun same => ⟨?_, fun contends => ?_⟩) _ (h.contenders id')
    · rw [hf, hf, same.1]
    · rw [hf] at contends
      rw [hr, same.2 contends]
  publishers := h.publishers
  delay := h.delay
  mirrors := h.mirrors
  notes id' hid' := by
    refine h.notes id' fun c hc => ?_
    by_cases heq : id = id'
    · have := hid' (f c) (by rw [get?_contenders_modify, if_pos heq, hc]; rfl)
      rwa [hf] at this
    · exact hid' c (by rw [get?_contenders_modify, if_neg heq, hc])

theorem Alike.modifyPublisher (h : Alike ρ bucket key b w v) (id : String)
    {f : Publisher → Publisher}
    (hf : ∀ p q : Publisher, q.control = p.control → (f q).control = (f p).control) :
    Alike ρ bucket key b (w.modifyPublisher id f) (v.modifyPublisher id f) where
  now := h.now
  register := h.register
  contenders := h.contenders
  publishers id' := by
    rw [get?_publishers_modify, get?_publishers_modify]
    exact rel_map (fun same hid => hf _ _ (same hid)) _ (h.publishers id')
  delay := h.delay
  mirrors := h.mirrors
  notes := h.notes

/-- A store changes in both worlds. -/
theorem Alike.setStore (h : Alike ρ bucket key b w v) (name : String) {s s' : Store}
    (mirrors : name = bucket → Store.Mirrors ρ key s s') :
    Alike ρ bucket key b (w.setStore name s) (v.setStore name s') where
  now := h.now
  register := h.register
  contenders := h.contenders
  publishers := h.publishers
  delay := by
    rw [bucket_setStore, bucket_setStore]
    split <;> exact h.delay
  mirrors := by
    rw [bucket_setStore, bucket_setStore]
    split
    · exact mirrors ‹_›
    · exact h.mirrors
  notes := h.notes

/-- A contender comes in that nobody has gone by the name of. -/
theorem Alike.enrol (h : Alike ρ bucket key b w v) {id : String} (y : Candidacy)
    (free : w.contenders.get? id = none) : Alike ρ bucket key b (w.enrol id y) (v.enrol id y) where
  now := h.now
  register := by
    have := h.register
    simp only [World.register, Prod.mk.injEq] at this
    simp only [World.register, World.enrol, this]
  contenders id' := by
    rw [get?_contenders_enrol, get?_contenders_enrol]
    split
    · exact .some ⟨rfl, fun _ => rfl⟩
    · exact h.contenders id'
  publishers := h.publishers
  delay := h.delay
  mirrors := h.mirrors
  notes id' hid' := by
    refine h.notes id' fun c hc => hid' c ?_
    rw [get?_contenders_enrol, if_neg, hc]
    rintro rfl
    cases free.symm.trans hc

end

end World

end Tenure
