import Tenure.Proofs.World.Alike

/-!
# Worlds that go abreast

Worlds that look alike from a key do so after the same move in both, with the other number for a
revision that an outsider names.

- **Writes** (`Acts`, `InStep`, `Alike.acts`): a move that may write the key takes a revision in
  both worlds or in neither. They look alike again if the second revision is the number of the
  first.
- **Other moves** (`Alike.idles`): they look alike as they did.
- **Starts** (`aloof_of_starts`): the start of a contender for something else does not show.
-/

namespace Tenure

open Election Lease

/-- The move starts the contender or the publisher of the name. -/
def Move.starts (id : String) : Move → Bool
  | .callRun id' _ | .startPublisher id' _ => id' = id
  | _ => false

/-- The move with another number for the revision of the key that an outsider names. -/
def Move.renumber (ρ : Nat → Nat) (bucket key : String) : Move → Move
  | .update b k value revision ttl =>
    .update b k value (if b = bucket ∧ k = key then ρ revision else revision) ttl
  | m => m

namespace World

/-- The move may write the key. -/
def Acts (w : World) (bucket key : String) : Move → Prop
  | .create b k _ _ | .update b k _ _ _ => b = bucket ∧ k = key
  | .poll (.run id _) _ => ∃ c, w.contenders.get? id = some c ∧ c.candidacy.Contends bucket key
  | _ => False

section

variable {ρ : Nat → Nat} {bucket key b : String} {w v : World} {m : Move}

/-! ## Writes of the key -/

/-- Both worlds take a revision or neither does, and they look alike if the second revision is the
number of the first. -/
structure InStep (ρ : Nat → Nat) (bucket key b : String) (w v w' v' : World) : Prop where
  alike : ((w'.bucket bucket).store.issued ≠ (w.bucket bucket).store.issued →
      ρ ((w.bucket bucket).store.issued + 1) = (v.bucket bucket).store.issued + 1) →
    Alike ρ bucket key b w' v'
  issued : (w'.bucket bucket).store.issued ≠ (w.bucket bucket).store.issued →
    (w'.bucket bucket).store.issued = (w.bucket bucket).store.issued + 1 ∧
      (v'.bucket bucket).store.issued = (v.bucket bucket).store.issued + 1

theorem Alike.inStep_of_parallel (h : Alike ρ bucket key b w v) {o o' : Store × Answer}
    (hp : Store.Parallel ρ key (w.bucket bucket).store (v.bucket bucket).store o o') :
    InStep ρ bucket key b w v (w.setStore bucket o.1) (v.setStore bucket o'.1) := by
  constructor <;> rw [bucket_setStore, if_pos rfl]
  · intro next
    exact h.setStore bucket fun _ => (hp.mirrors h.mirrors next).1
  · intro hne
    rw [bucket_setStore, if_pos rfl]
    exact hp.issued hne

/-- Two turns whose outcomes are the same up to the numbers lead to worlds that look alike. -/
theorem Alike.effects {w' v' : World} {id : String} {c : Contender} {o o' : Election.Outcome}
    (h : Alike ρ c.candidacy.bucket c.candidacy.key b w v) (hc : w.contenders.get? id = some c)
    (effect : Effect w id c.candidacy o w') (effect' : Effect v id c.candidacy o' v')
    (register : v'.register = w'.register) (contender : o'.contender = o.contender.renumber ρ)
    (notes : o'.notes = o.notes.map (·.renumber ρ))
    (mirrors : Store.Mirrors ρ c.candidacy.key o.store o'.store) :
    Alike ρ c.candidacy.bucket c.candidacy.key b w' v' where
  now := by rw [effect'.now, effect.now, h.now]
  register := register
  contenders id' := by
    rw [effect.contenders, effect'.contenders]
    split
    · exact .some ⟨by rw [contender]; rfl, fun _ => contender⟩
    · exact h.contenders id'
  publishers id' := by
    rw [effect.publishers, effect'.publishers]
    exact rel_map (fun same hid => by rw [control_hearAll, control_hearAll, same hid]) _
      (h.publishers id')
  delay := by rw [effect.bucket, effect'.bucket, if_pos rfl, if_pos rfl, h.delay]
  mirrors := by
    rw [effect.bucket, effect'.bucket, if_pos rfl, if_pos rfl]
    exact mirrors
  notes id' hid' := by
    have before : w.Partakes c.candidacy.bucket c.candidacy.key id' := by
      intro c' hc'
      by_cases heq : id = id'
      · subst heq
        obtain rfl := Option.some.inj (hc.symm.trans hc')
        exact ⟨rfl, rfl⟩
      · exact hid' c' (by rw [effect.contenders, if_neg heq, hc'])
    rw [effect.notes, effect'.notes, notes, List.map_append, ← h.notes id' before]
    split
    · simp [h.now, Function.comp_def]
    · rfl

theorem Alike.inStep_of_turn (inj : Function.Injective ρ) {id : String} {c : Contender}
    (h : Alike ρ c.candidacy.bucket c.candidacy.key b w v) (hc : w.contenders.get? id = some c)
    (i draw : Nat) : InStep ρ c.candidacy.bucket c.candidacy.key b w v (w.pollRun id i draw)
      (v.pollRun id i draw) := by
  have rel := h.contenders id
  rw [hc] at rel
  obtain ⟨d, hd, same⟩ := exists_of_rel' rel
  obtain rfl := same.2 ⟨rfl, rfl⟩
  have effect := pollRun_turn hc i draw
  have effect' := pollRun_turn hd i draw
  rw [show (c.renumber ρ).candidacy = c.candidacy from rfl, h.now, h.delay] at effect'
  have parallel := turn_parallel inj h.mirrors w.now (w.bucket c.candidacy.bucket).delay draw i
  have register : (v.pollRun id i draw).register = (w.pollRun id i draw).register := by
    rw [register_pollRun, register_pollRun, h.register]
  constructor <;> rw [effect.bucket, if_pos rfl]
  · intro next
    obtain ⟨contender, notes, mirrors⟩ := parallel.same next
    exact h.effects hc effect effect' register contender notes mirrors
  · intro hne
    rw [effect'.bucket, if_pos rfl]
    exact parallel.issued hne

/-- A move that may write the key is made in both worlds. -/
theorem Alike.acts (inj : Function.Injective ρ) (h : Alike ρ bucket key b w v)
    (acts : w.Acts bucket key m) :
    InStep ρ bucket key b w v (w.move m) (v.move (m.renumber ρ bucket key)) := by
  cases m with
  | create b k value ttl =>
    obtain ⟨rfl, rfl⟩ := acts
    refine h.inStep_of_parallel ?_
    rw [h.now]
    exact Store.create_parallel h.mirrors w.now value ttl
  | update b k value revision ttl =>
    obtain ⟨rfl, rfl⟩ := acts
    simp only [Move.renumber, and_self, if_true]
    refine h.inStep_of_parallel ?_
    rw [h.now]
    exact Store.update_parallel inj h.mirrors w.now value revision ttl
  | poll task draw =>
    cases task with
    | run id i =>
      obtain ⟨c, hc, rfl, rfl⟩ := acts
      exact h.inStep_of_turn inj hc i draw
    | _ => exact acts.elim
  | _ => exact acts.elim

/-- What a move does in the second world is the same for all numbers with which the worlds look
alike: an outsider hits the revision of the row with all of them or with none. -/
theorem Alike.move_renumber {σ : Nat → Nat} (hρ : Function.Injective ρ)
    (hσ : Function.Injective σ) (h : Alike ρ bucket key b w v) (h' : Alike σ bucket key b w v)
    (m : Move) : v.move (m.renumber ρ bucket key) = v.move (m.renumber σ bucket key) := by
  cases m with
  | update b k value revision ttl =>
    simp only [Move.renumber]
    split
    · rename_i here
      obtain ⟨rfl, rfl⟩ := here
      have hits : ∀ row, (v.bucket b).store.rows.get? k = some row →
          (row.revision = ρ revision ↔ row.revision = σ revision) := by
        intro row hrow
        obtain ⟨row₀, hrow₀, rfl⟩ := Option.map_eq_some_iff.1 (h.mirrors.row.symm.trans hrow)
        have same : row₀.renumber ρ = row₀.renumber σ := by
          have := h'.mirrors.row
          rw [hrow, hrow₀] at this
          exact Option.some.inj this
        have numbers : ρ row₀.revision = σ row₀.revision := congrArg Row.revision same
        show ρ row₀.revision = ρ revision ↔ ρ row₀.revision = σ revision
        rw [hρ.eq_iff, numbers, hσ.eq_iff]
      simp only [World.move, World.update, Store.update_congr v.now value ttl hits]
    · rfl
  | _ => rfl

/-! ## Other moves -/

theorem Alike.isTaken (h : Alike ρ bucket key b w v) (id : String) :
    v.isTaken id = w.isTaken id := by
  have isSome {α β : Type} {r : α → β → Prop} {x : Option α} {y : Option β}
      (rel : Option.Rel r x y) : y.isSome = x.isSome := by
    cases rel <;> rfl
  simp only [World.isTaken, Table.contains, isSome (h.contenders id), isSome (h.publishers id)]

theorem Alike.nonce (h : Alike ρ bucket key b w v) : v.host = w.host ∧ v.nonce = w.nonce := by
  obtain ⟨hhost, hborn⟩ := Prod.mk.inj h.register
  exact ⟨hhost, by rw [World.nonce, World.nonce, hborn]⟩

theorem Alike.cancel (h : Alike ρ bucket key b w v) (id : String) (tied : Bool) :
    Alike ρ bucket key b (w.modifyContender id (·.cancel tied))
      (v.modifyContender id (·.cancel tied)) :=
  h.modifyContender id (fun _ => rfl) fun c => by
    simp only [Contender.cancel, Contender.renumber, List.map_map, Contender.mk.injEq, true_and]
    refine List.map_congr_left fun r _ => ?_
    by_cases htied : r.tied = tied <;> simp [Run.renumber, htied]

theorem Alike.cancelRun (h : Alike ρ bucket key b w v) (id : String) (i : Nat) :
    Alike ρ bucket key b (w.cancelRun id i) (v.cancelRun id i) :=
  h.modifyContender id (fun _ => rfl) fun c => c.renumber_modifyRun ρ i fun r => by
    by_cases htied : r.tied = true <;> simp [Run.renumber, htied]

theorem Alike.start (h : Alike ρ bucket key b w v) (id : String) (cancelled tied : Bool) :
    Alike ρ bucket key b (w.modifyContender id (·.start cancelled tied))
      (v.modifyContender id (·.start cancelled tied)) :=
  h.modifyContender id (fun _ => rfl) fun c => by
    simp [Contender.start, Contender.renumber, Run.renumber, Phase.renumber, Ledger.renumber]

theorem Alike.cancelPublisher (h : Alike ρ bucket key b w v) (id : String) :
    Alike ρ bucket key b (w.cancelPublisher id) (v.cancelPublisher id) :=
  (h.modifyPublisher id fun p q same => by
    simp only [Publisher.control, Prod.mk.injEq] at same ⊢
    exact ⟨same.1, same.2.1, trivial, same.2.2.2⟩).cancel id true

theorem Alike.runPublisher (h : Alike ρ bucket key b w v) {id : String} (hid : id ≠ b) :
    Alike ρ bucket key b (w.runPublisher id).1 (v.runPublisher id).1 := by
  have rel := h.publishers id
  simp only [World.runPublisher]
  generalize w.publishers.get? id = p? at rel
  generalize v.publishers.get? id = q? at rel
  cases rel with
  | none => exact h
  | @some p q same =>
    have same := same hid
    simp only [Publisher.control, Prod.mk.injEq] at same
    obtain ⟨gated, started, cancelled, -⟩ := same
    simp only [gated, started, cancelled]
    cases p.started with
    | true => exact h
    | false =>
      have shown := h.both (aloof_modifyMetrics w (announce p)) (aloof_modifyMetrics v (announce q))
      refine Alike.modifyPublisher ?_ id fun p q same => ?_
      · split
        · exact shown.start id p.cancelled true
        · exact shown
      · simp only [Publisher.control, Prod.mk.injEq] at same ⊢
        exact ⟨same.1, trivial, same.2.2⟩

theorem Alike.startPublisher (h : Alike ρ bucket key b w v) {id : String} (hid : id ≠ b)
    (cancelled : Bool) :
    Alike ρ bucket key b (w.startPublisher id cancelled).1 (v.startPublisher id cancelled).1 := by
  simp only [World.startPublisher]
  split
  · exact (h.cancelPublisher id).runPublisher hid
  · exact h.runPublisher hid

theorem Alike.pollStopping (h : Alike ρ bucket key b w v) (hb : w.Strays bucket key b)
    (id : String) : Alike ρ bucket key b (w.pollStopping id) (v.pollStopping id) := by
  by_cases hid : id = b
  · -- the publisher may be in another state in the other world
    subst hid
    have aloof {u : World} (hu : u.Strays bucket key id) :
        Aloof bucket key id u (u.pollStopping id) := by
      simp only [World.pollStopping]
      split
      · exact aloof_cancelPublisher u hu
      · exact .refl ..
    exact h.both (aloof hb) (aloof (h.strays hb))
  · have same : ((v.publishers.get? id).map (·.mustStop v.now)).getD false =
        ((w.publishers.get? id).map (·.mustStop w.now)).getD false := by
      have rel := h.publishers id
      generalize w.publishers.get? id = p? at rel
      generalize v.publishers.get? id = q? at rel
      cases rel with
      | none => rfl
      | some same =>
        have same := same hid
        simp only [Publisher.control, Prod.mk.injEq] at same
        simp only [Option.map_some, Option.getD_some, Publisher.mustStop, h.now, same]
    simp only [World.pollStopping, same]
    split
    · exact h.cancelPublisher id
    · exact h

theorem Alike.openContender (h : Alike ρ bucket key b w v) (id : String) (o : Options) :
    Alike ρ bucket key b (w.move (.openContender id o)) (v.move (.openContender id o)) := by
  simp only [World.move, h.isTaken]
  split
  · exact h
  · rename_i free
    simp only [World.openContender, h.nonce.1, h.nonce.2]
    cases Candidacy.ofOptions o w.host w.nonce with
    | error e => exact h
    | ok y => exact h.enrol y (eq_none_of_free (Bool.eq_false_iff.2 free)).1

theorem Alike.openPublisher (h : Alike ρ bucket key b w v) (id : String) (c : Config)
    (replicator outbox : String) (bucket? : Option String) (relaxations : Relaxations) :
    Alike ρ bucket key b (w.move (.openPublisher id c replicator outbox bucket? relaxations))
      (v.move (.openPublisher id c replicator outbox bucket? relaxations)) := by
  simp only [World.move, h.isTaken]
  split
  · exact h
  · rename_i free
    have taken := eq_none_of_free (Bool.eq_false_iff.2 free)
    have terms : Publisher.ofConfig c replicator v.host outbox bucket? relaxations v.nonce =
        Publisher.ofConfig c replicator w.host outbox bucket? relaxations w.nonce := by
      rw [h.nonce.1, h.nonce.2]
    simp only [World.openPublisher, terms]
    cases Publisher.ofConfig c replicator w.host outbox bucket? relaxations w.nonce with
    | error e => exact h
    | ok opened =>
      obtain ⟨p, y?⟩ := opened
      have opens : Alike ρ bucket key b { w with publishers := w.publishers.insert id p }
          { v with publishers := v.publishers.insert id p } :=
        ⟨h.now, h.register, h.contenders, fun id' => by
          simp only [Table.get?_insert]
          split
          · exact .some fun _ => rfl
          · exact h.publishers id', h.delay, h.mirrors, h.notes⟩
      cases y? with
      | none => exact opens
      | some y => exact opens.enrol y taken.1

/-- A turn of a contender for something else, or of nobody. -/
theorem aloof_pollRun (w : World) {id : String}
    (hid : ∀ c, w.contenders.get? id = some c → ¬ c.candidacy.Contends bucket key) (i draw : Nat) :
    Aloof bucket key b w (w.pollRun id i draw) := by
  cases hc : w.contenders.get? id with
  | none =>
    simp only [World.pollRun, hc]
    exact .refl ..
  | some c =>
    obtain ⟨o, turn, effect⟩ := pollRun_effect hc i draw
    exact aloof_of_effect hc hid turn effect (register_pollRun w id i draw)

theorem aloof_pollLoop (w : World) (id : String) (j : Nat) :
    Aloof bucket key b w (w.pollLoop id j) := by
  cases hp : w.publishers.get? id with
  | none =>
    simp only [World.pollLoop, hp]
    exact .refl ..
  | some p =>
    obtain ⟨o, beat, effect⟩ := pollLoop_effect hp j
    exact aloof_of_beat hp beat effect (register_pollLoop w id j)

theorem Alike.modifyStore (h : Alike ρ bucket key b w v) (name : String) {f : Store → Store}
    (hf : ∀ {s s'}, Store.Mirrors ρ key s s' → Store.Mirrors ρ key (f s) (f s')) :
    Alike ρ bucket key b (w.modifyStore name f) (v.modifyStore name f) :=
  h.setStore name fun heq => by
    subst heq
    exact hf h.mirrors

theorem Alike.setStoreDelay (h : Alike ρ bucket key b w v) (name : String) (delay : Nat) :
    Alike ρ bucket key b (w.setStoreDelay name delay) (v.setStoreDelay name delay) := by
  have bucket_eq (u : World) : (u.setStoreDelay name delay).bucket bucket =
      if name = bucket then { u.bucket bucket with delay := delay } else u.bucket bucket := by
    simp only [World.setStoreDelay, World.bucket, Table.getD, Table.get?_insert]
    split
    · subst name
      rfl
    · rfl
  refine ⟨h.now, h.register, h.contenders, h.publishers, ?_, ?_, h.notes⟩
  · rw [bucket_eq, bucket_eq]
    split
    · rfl
    · exact h.delay
  · rw [bucket_eq, bucket_eq]
    split <;> exact h.mirrors

/-- A move that does not write the key is made in both worlds. -/
theorem Alike.idles (h : Alike ρ bucket key b w v) (hb : w.Strays bucket key b)
    (starts : m.starts b = false) (idle : ¬ w.Acts bucket key m) :
    Alike ρ bucket key b (w.move m) (v.move m) := by
  cases m with
  | openContender id o => exact h.openContender id o
  | openPublisher id c replicator outbox bucket? relaxations =>
    exact h.openPublisher id c replicator outbox bucket? relaxations
  | callRun id cancelled => exact h.start id cancelled false
  | cancelRun id i => exact h.cancelRun id i
  | cancelContender id => exact h.cancel id false
  | startPublisher id cancelled =>
    exact h.startPublisher (by simpa [Move.starts] using starts) cancelled
  | cancelPublisher id => exact h.cancelPublisher id
  | stopPublisherAt id due =>
    refine h.modifyPublisher id fun p q same => ?_
    simp only [Publisher.control, Prod.mk.injEq, Publisher.stopAt] at same ⊢
    exact ⟨same.1, same.2.1, same.2.2.1, by rw [same.2.2.2]⟩
  | look id => exact h.modifyContender id (fun _ => rfl) fun _ => rfl
  | poll task draw =>
    cases task with
    | run id i =>
      have strays : w.Strays bucket key id := fun c hc contends => idle ⟨c, hc, contends⟩
      exact h.both (aloof_pollRun w strays i draw) (aloof_pollRun v (h.strays strays) i draw)
    | loop id j => exact h.both (aloof_pollLoop w id j) (aloof_pollLoop v id j)
    | closing id => exact h.both (aloof_pollClosing w id) (aloof_pollClosing v id)
    | stopping id => exact h.pollStopping hb id
  | create name k value ttl =>
    have aloof (u : World) : Aloof bucket key b u (u.move (.create name k value ttl)) :=
      aloof_setStore u name (fun _ => Store.available_create ..) fun heq =>
        Store.get?_rows_create_of_ne _ _ _ _ fun hk => idle ⟨heq, hk⟩
    exact h.both (aloof w) (aloof v)
  | update name k value revision ttl =>
    have aloof (u : World) : Aloof bucket key b u (u.move (.update name k value revision ttl)) :=
      aloof_setStore u name (fun _ => Store.available_update ..) fun heq =>
        Store.get?_rows_update_of_ne _ _ _ _ _ fun hk => idle ⟨heq, hk⟩
    exact h.both (aloof w) (aloof v)
  | expire name k =>
    refine h.modifyStore name (f := (·.expire k)) fun mirrors => ⟨mirrors.available, ?_⟩
    rw [Store.get?_rows_expire, Store.get?_rows_expire, mirrors.row]
    split <;> rfl
  | setAvailable name available =>
    exact h.modifyStore name (f := (·.setAvailable available)) fun mirrors => ⟨rfl, mirrors.row⟩
  | setStoreDelay name delay => exact h.setStoreDelay name delay
  | advance nanos =>
    exact ⟨congrArg (· + nanos) h.now, h.register, h.contenders, h.publishers, h.delay, h.mirrors,
      h.notes⟩
  | setWall | publish | setFailing | setOutboxDelay | readMetric =>
    exact ⟨h.now, h.register, h.contenders, h.publishers, h.delay, h.mirrors, h.notes⟩

theorem renumber_of_idle (idle : ¬ w.Acts bucket key m) (ρ : Nat → Nat) :
    m.renumber ρ bucket key = m := by
  cases m with
  | update b k value revision ttl =>
    have elsewhere : ¬ (b = bucket ∧ k = key) := idle
    simp only [Move.renumber, if_neg elsewhere]
  | _ => rfl

/-- A start of `b` does not show. -/
theorem aloof_of_starts (hb : w.Strays bucket key b) (starts : m.starts b = true) :
    Aloof bucket key b w (w.move m) := by
  cases m with
  | callRun id cancelled =>
    obtain rfl : id = b := by simpa [Move.starts] using starts
    exact aloof_callRun w hb cancelled
  | startPublisher id cancelled =>
    obtain rfl : id = b := by simpa [Move.starts] using starts
    exact aloof_startPublisher w hb cancelled
  | _ => cases starts

end

end World

end Tenure
