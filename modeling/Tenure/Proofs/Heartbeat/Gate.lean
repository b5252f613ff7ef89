import Tenure.Proofs.Election.Terms
import Tenure.Proofs.World.Moves

/-!
# The gate

The loops of a publisher see nothing of its election but a flag that says whether publication is
suspended. The gate writes it when the contender wins or loses; when a cancelled call of `run` leaves
the loop, nobody does. The publisher cancels its own call only with itself, but anybody can get hold of
its contender, call `run` and cancel that call.

- **The gate** (`Publisher.Hears`, `Guards`): the publisher's call of `run` is cancelled together with it.
  Until then, if nobody else has called `run`, publication is suspended iff the contender is no leader.
  Turns of the calls keep this (`Guards.turn`): the way out that skips the gate is open to cancelled calls
  only.
- **Moves** (`Guarded`, `guarded_follow`): every gated publisher has such a contender.
- **Calls of others** (`RunByPublisher`): nobody but the publisher has called `run`.
- **Heartbeats** (`Sends`, `leader_of_sends`): a loop begins a heartbeat only before the publisher is
  cancelled, and, if nobody else has called `run`, only while the contender is leader.
-/

namespace Tenure

open Election

/-! ## The gate -/

/-- The gate makes nothing of calls on the store. -/
theorem Publisher.hearAll_opening (p : Publisher) (r : Run) (q : Request) :
    p.hearAll (r.opening q) = p := by
  unfold Run.opening
  split <;> rfl

/-- The gate follows the standing through the end of a campaign. -/
theorem Publisher.hearAll_conclusion (p : Publisher) (c : Contender) (r : Run)
    (answer? : Option Answer) (draw : Nat) :
    p.hearAll ((c.conclusion r answer?).notes ++ (c.conclusion r answer?).wait.notes draw) =
      if c.standing = standingAfter answer? then p
      else { p with paused := !(standingAfter answer?).isLeader } := by
  have hwait (q : Publisher) (wait : Wait) : q.hearAll (wait.notes draw) = q := by
    cases wait with
    | plain => rfl
    | backoff strategy failures =>
      simp only [Wait.notes]
      split <;> rfl
  rw [Publisher.hearAll_append, hwait]
  simp only [Contender.conclusion, conclude, notesOf]
  cases hs : c.standing <;> cases hs' : standingAfter answer? <;>
    cases c.candidacy.backoff? <;> rfl

/-- Every call of `run` was made by the publisher of the contender. -/
def Election.Contender.AllTied (c : Contender) : Prop := ∀ r ∈ c.runs, r.tied = true

/-- Whoever made the calls of `run` that are still there made the earlier ones. -/
theorem Election.Aside.allTied {c d : Contender} (h : Aside c d) (hd : d.AllTied) : c.AllTied := by
  intro r hr
  obtain ⟨j, hj⟩ := List.getElem?_of_mem hr
  obtain ⟨b, hb⟩ := h.run' hj
  have tied := hd _ (List.mem_of_getElem? hb)
  exact tied

theorem Election.Turn.allTied {now delay draw : Nat} {c : Contender} {s : Lease.Store} {i : Nat}
    {o : Outcome} (t : Turn now delay draw c s i o) (ho : o.contender.AllTied) : c.AllTied := by
  intro r hr
  obtain ⟨j, hj⟩ := List.getElem?_of_mem hr
  obtain ⟨r', hr', -, same⟩ := t.exists_run' hj
  exact same.symm.trans (ho _ (List.mem_of_getElem? hr'))

/-- What a publisher hears of a turn of a call of `run`. -/
inductive Publisher.Hears (p : Publisher) (c : Contender) (i : Nat) (o : Election.Outcome) : Prop
  /-- The standing stays. -/
  | deaf (standing : o.contender.standing = c.standing) (heard : p.hearAll o.notes = p)
  /-- A campaign ends with another standing. -/
  | told (heard : p.hearAll o.notes = { p with paused := !o.contender.standing.isLeader })
  /-- A cancelled call leaves the loop, and nobody tells. -/
  | left {r : Run} (run : c.runs[i]? = some r) (cancelled : r.cancelled = true)
      (standing : o.contender.standing = .candidate) (heard : p.hearAll o.notes = p)

theorem Election.Turn.hears {now delay draw : Nat} {c : Contender} {s : Lease.Store} {i : Nat}
    {o : Outcome} (t : Turn now delay draw c s i o) (p : Publisher) : p.Hears c i o := by
  have concluded {d : Contender} {r : Run} {answer? : Option Answer} {notes : List Note}
      {store : Lease.Store} (e : Engages c i d r)
      (heard : p.hearAll notes = p.hearAll ((d.conclusion r answer?).notes ++
        (d.conclusion r answer?).wait.notes draw)) :
      p.Hears c i ⟨d.concluded i (d.conclusion r answer?) now draw, store, notes⟩ := by
    rw [Publisher.hearAll_conclusion] at heard
    split at heard
    · rename_i same
      exact .deaf (by rw [Contender.standing_concluded, ← e.standing, same]; rfl) heard
    · exact .told (by rw [Contender.standing_concluded]; exact heard)
  cases t with
  | still | refused => exact .deaf rfl rfl
  | left e cancelled =>
    obtain ⟨r₀, hr₀, same, -⟩ := e.exists_run e.run
    exact .left hr₀ (same.trans cancelled) rfl rfl
  | asks e => exact .deaf e.standing rfl
  | acts e =>
    refine concluded e ?_
    rw [Publisher.hearAll_append, Publisher.hearAll_opening]
    rfl
  | breaks e => exact .deaf e.standing (p.hearAll_opening _ _)
  | idles e => exact concluded e rfl

/-! ### What others do

Whoever calls `run` or cancels calls does nothing to the calls of the publisher. -/

section

variable {c : Contender} {i j : Nat} {r : Run}

theorem Election.Contender.run_of_start {cancelled : Bool}
    (run : (c.start cancelled false).runs[j]? = some r) (tied : r.tied = true) :
    c.runs[j]? = some r := by
  rw [Contender.start, List.getElem?_append] at run
  split at run
  · exact run
  · rw [List.getElem?_singleton] at run
    split at run
    · rw [← Option.some.inj run] at tied
      cases tied
    · cases run

theorem Election.Contender.run_of_cancel (run : (c.cancel false).runs[j]? = some r)
    (tied : r.tied = true) : c.runs[j]? = some r := by
  rw [Contender.cancel, List.getElem?_map, Option.map_eq_some_iff] at run
  obtain ⟨r₀, run, rfl⟩ := run
  split at tied
  · rename_i untied
    cases untied.symm.trans tied
  · rw [if_neg ‹_›, run]

theorem Election.Contender.run_of_cancelRun (run : (c.cancelRun i).runs[j]? = some r)
    (tied : r.tied = true) : c.runs[j]? = some r := by
  rw [Contender.cancelRun, Contender.getElem?_modifyRun] at run
  split at run
  · obtain ⟨r₀, run₀, rfl⟩ := Option.map_eq_some_iff.1 run
    split at tied
    · rw [if_pos ‹_›, run₀]
    · exact absurd tied ‹_›
  · exact run

end

/-- A contender guards a publisher: the publisher's call of `run` is cancelled with the publisher, and
until then publication is suspended iff the contender is no leader, unless somebody else has called
`run`. -/
structure Guards (c : Contender) (p : Publisher) : Prop where
  audience : c.candidacy.audience = .gate
  cancelled : ∀ {j : Nat} {r : Run}, c.runs[j]? = some r → r.tied = true →
    r.cancelled = p.cancelled
  paused : c.AllTied → p.cancelled = false → p.paused = !c.standing.isLeader

namespace Guards

variable {c : Contender} {p : Publisher}

theorem of_publisher (h : Guards c p) {p' : Publisher} (cancelled : p'.cancelled = p.cancelled)
    (paused : p'.cancelled = false → p'.paused = p.paused) : Guards c p' where
  audience := h.audience
  cancelled hr htied := (h.cancelled hr htied).trans cancelled.symm
  paused all hc := (paused hc).trans (h.paused all (cancelled ▸ hc))

/-- If all calls of `run` are the publisher's, all are cancelled with it. -/
theorem cancelled_of_allTied (h : Guards c p) (tied : c.AllTied) {j : Nat} {r : Run}
    (hr : c.runs[j]? = some r) : r.cancelled = p.cancelled :=
  h.cancelled hr (tied r (List.mem_of_getElem? hr))

/-- What others do to the contender. -/
theorem of_spared (h : Guards c p) {d : Contender} (aside : Aside c d)
    (tied : ∀ {j : Nat} {r : Run}, d.runs[j]? = some r → r.tied = true → c.runs[j]? = some r) :
    Guards d p where
  audience := by rw [aside.candidacy]; exact h.audience
  cancelled hr htied := h.cancelled (tied hr htied) htied
  paused all := by rw [aside.standing]; exact h.paused (aside.allTied all)

theorem cancel (h : Guards c p) : Guards (c.cancel true) { p with cancelled := true } where
  audience := h.audience
  cancelled {j r} hr htied := by
    rw [Contender.cancel, List.getElem?_map, Option.map_eq_some_iff] at hr
    obtain ⟨r₀, -, rfl⟩ := hr
    split at htied
    · rw [if_pos ‹_›]
    · exact absurd htied ‹_›
  paused := nofun

theorem start (h : Guards c p) : Guards (c.start p.cancelled true) p where
  audience := h.audience
  cancelled {j r} hr htied := by
    rw [Contender.start, List.getElem?_append] at hr
    split at hr
    · exact h.cancelled hr htied
    · rw [List.getElem?_singleton] at hr
      split at hr
      · rw [← Option.some.inj hr]
      · cases hr
  paused all := h.paused fun r hr => all r (List.mem_append_left _ hr)

/-- A turn of a call of `run` keeps the gate in step with the standing. -/
theorem turn (h : Guards c p) {now delay draw : Nat} {s : Lease.Store} {i : Nat} {o : Outcome}
    (t : Turn now delay draw c s i o) : Guards o.contender (p.hearAll o.notes) := by
  obtain ⟨paused, heq⟩ := p.hearAll_eq o.notes
  refine ⟨by rw [t.candidacy]; exact h.audience, fun hr htied => ?_, fun all hcan => ?_⟩
  · obtain ⟨r₀, hr₀, hsame, same⟩ := t.exists_run hr
    rw [← hsame, h.cancelled hr₀ (same.trans htied), heq]
  · replace hcan : p.cancelled = false := by rwa [heq] at hcan
    replace all := t.allTied all
    cases t.hears p with
    | deaf standing heard => rw [heard, standing, h.paused all hcan]
    | told heard => rw [heard]
    | left run cancelled =>
      -- the call is the publisher's, which is cancelled with it
      rw [← h.cancelled_of_allTied all run, cancelled] at hcan
      cases hcan

end Guards

namespace World

/-- Every gated publisher is guarded by the contender of its name. -/
def Guarded (w : World) : Prop :=
  ∀ id p, w.publishers.get? id = some p → p.gated = true →
    ∃ c, w.contenders.get? id = some c ∧ Guards c p

/-! ## Moves -/

section

variable {w v : World} {id : String}

theorem Guarded.of_eq (h : w.Guarded) (hp : v.publishers = w.publishers)
    (hc : v.contenders = w.contenders) : v.Guarded := by
  intro id p
  rw [hp, hc]
  exact h id p

/-- A publisher is edited in what the gate does not see. -/
theorem Guarded.modifyPublisher (h : w.Guarded) (id : String) {f : Publisher → Publisher}
    (gated : ∀ p, (f p).gated = p.gated) (cancelled : ∀ p, (f p).cancelled = p.cancelled)
    (paused : ∀ p, (f p).cancelled = false → (f p).paused = p.paused) :
    (w.modifyPublisher id f).Guarded := by
  intro id' p' hp' hgated
  rw [get?_publishers_modify] at hp'
  split at hp'
  · obtain ⟨p, hp, rfl⟩ := Option.map_eq_some_iff.1 hp'
    obtain ⟨c, hc, guards⟩ := h _ _ hp (gated p ▸ hgated)
    exact ⟨c, hc, guards.of_publisher (cancelled p) (paused p)⟩
  · exact h _ _ hp' hgated

/-- A contender is edited in what the gate does not see. -/
theorem Guarded.modifyContender (h : w.Guarded) (id : String) {f : Contender → Contender}
    (hf : ∀ {c p}, w.publishers.get? id = some p → Guards c p → Guards (f c) p) :
    (w.modifyContender id f).Guarded := by
  intro id' p hp hgated
  obtain ⟨c, hc, guards⟩ := h _ _ hp hgated
  rw [get?_contenders_modify, hc]
  by_cases hid : id = id'
  · subst id'
    exact ⟨f c, by rw [if_pos rfl]; rfl, hf hp guards⟩
  · exact ⟨c, if_neg hid, guards⟩

theorem Guarded.cancelPublisher (h : w.Guarded) (id : String) :
    (w.cancelPublisher id).Guarded := by
  intro id' p' hp' hgated
  have hp' : (w.modifyPublisher id fun p => { p with cancelled := true }).publishers.get? id' =
    some p' := hp'
  rw [get?_publishers_modify] at hp'
  show ∃ c, (w.modifyContender id (·.cancel true)).contenders.get? id' = some c ∧ _
  rw [get?_contenders_modify]
  by_cases hid : id = id'
  · subst id'
    rw [if_pos rfl] at hp'
    obtain ⟨p, hp, rfl⟩ := Option.map_eq_some_iff.1 hp'
    obtain ⟨c, hc, guards⟩ := h _ _ hp hgated
    exact ⟨c.cancel true, by rw [if_pos rfl, hc]; rfl, guards.cancel⟩
  · rw [if_neg hid] at hp' ⊢
    exact h _ _ hp' hgated

theorem Guarded.runPublisher (h : w.Guarded) (id : String) : (w.runPublisher id).1.Guarded := by
  simp only [World.runPublisher]
  cases hp : w.publishers.get? id with
  | none => exact h
  | some p =>
    dsimp only
    split
    · exact h
    · refine Guarded.modifyPublisher ?_ id (fun _ => rfl) (fun _ => rfl) (fun _ _ => rfl)
      split
      · refine Guarded.modifyContender (h.of_eq rfl rfl) id fun {c p'} hp' guards => ?_
        obtain rfl := Option.some.inj (hp.symm.trans hp')
        exact guards.start
      · exact h.of_eq rfl rfl

theorem Guarded.startPublisher (h : w.Guarded) (id : String) (cancelled : Bool) :
    (w.startPublisher id cancelled).1.Guarded := by
  simp only [World.startPublisher]
  split
  · exact (h.cancelPublisher id).runPublisher id
  · exact h.runPublisher id

theorem Guarded.pollClosing (h : w.Guarded) (id : String) : (w.pollClosing id).Guarded := by
  simp only [World.pollClosing]
  cases hp : w.publishers.get? id with
  | none => exact h
  | some p =>
    dsimp only
    split
    · rename_i hdone
      intro id' p' hp' hgated
      have hp' : (w.modifyPublisher id fun p =>
        { p with paused := true, closing := .done }).publishers.get? id' = some p' := hp'
      rw [get?_publishers_modify] at hp'
      split at hp'
      · rename_i hid
        subst id'
        rw [hp] at hp'
        obtain rfl := Option.some.inj hp'
        obtain ⟨c, hc, guards⟩ := h _ _ hp hgated
        exact ⟨c, hc, guards.of_publisher rfl fun hcan => absurd hdone.2 (Bool.eq_false_iff.1 hcan)⟩
      · exact h _ _ hp' hgated
    · exact h

theorem Guarded.enrol (h : w.Guarded) (absent : w.publishers.get? id = none) (y : Candidacy) :
    (w.enrol id y).Guarded := by
  intro id' p hp hgated
  obtain ⟨c, hc, guards⟩ := h _ _ hp hgated
  refine ⟨c, ?_, guards⟩
  rw [get?_contenders_enrol, if_neg, hc]
  rintro rfl
  exact nomatch absent.symm.trans hp

theorem Guarded.openPublisher (h : w.Guarded) {config : Config} {replicator outbox : String}
    {bucket? : Option String} {relaxations : Relaxations} {v : World}
    (hv : w.openPublisher id config replicator outbox bucket? relaxations = .ok v) :
    v.Guarded := by
  obtain ⟨⟨p, y?⟩, hp, hv⟩ := exists_of_bind_ok hv
  obtain ⟨schedules, -, rfl, hungated, hgated⟩ := Publisher.ofConfig_ok hp
  obtain rfl := Except.ok.inj hv
  cases hg : config.leaderElection with
  | false =>
    rw [hungated hg]
    intro id' p' hp' hgated'
    have hp' : (w.publishers.insert id _).get? id' = some p' := hp'
    rw [Table.get?_insert] at hp'
    split at hp'
    · obtain rfl := Option.some.inj hp'
      cases hgated'
    · exact h _ _ hp' hgated'
  | true =>
    obtain ⟨o, y, rfl, ho, hy⟩ := hgated hg
    intro id' p' hp' hgated'
    have hp' : (w.publishers.insert id _).get? id' = some p' := hp'
    rw [Table.get?_insert] at hp'
    rw [get?_contenders_enrol]
    split at hp'
    · obtain rfl := Option.some.inj hp'
      refine ⟨_, if_pos ‹_›, ?_, fun hr => by simp at hr, fun _ _ => rfl⟩
      obtain ⟨-, -, -, haudience, -⟩ := Publisher.optionsOf_ok ho
      obtain ⟨-, -, -, -, hy, -⟩ := Candidacy.ofOptions_ok hy
      exact hy.trans haudience
    · rw [if_neg ‹_›]
      exact h _ _ hp' hgated'

theorem Guarded.turn (h : w.Guarded) {o : Election.Outcome} {c : Contender}
    (was : w.contenders.get? id = some c) {now delay draw i : Nat} {s : Lease.Store}
    (t : Turn now delay draw c s i o) (effect : Effect w id c.candidacy o v) : v.Guarded := by
  intro id' p' hp' hgated
  rw [effect.publishers] at hp'
  rw [effect.contenders]
  by_cases hid : id = id'
  · subst id'
    have hpub : ∃ p, w.publishers.get? id = some p ∧ p.gated = true := by
      split at hp'
      · obtain ⟨p, hp, rfl⟩ := Option.map_eq_some_iff.1 hp'
        obtain ⟨paused, heq⟩ := p.hearAll_eq o.notes
        exact ⟨p, hp, by rwa [heq] at hgated⟩
      · exact ⟨p', hp', hgated⟩
    obtain ⟨p, hp, hg⟩ := hpub
    obtain ⟨c₀, hc₀, guards⟩ := h _ _ hp hg
    obtain rfl := Option.some.inj (was.symm.trans hc₀)
    rw [if_pos ⟨rfl, guards.audience⟩, hp] at hp'
    obtain rfl := Option.some.inj hp'
    exact ⟨o.contender, if_pos rfl, guards.turn t⟩
  · rw [if_neg hid]
    rw [if_neg fun h => hid h.1] at hp'
    exact h _ _ hp' hgated

theorem Guarded.beat (h : w.Guarded) {p : Publisher} {j : Nat} {o : Publisher.Outcome}
    (was : w.publishers.get? id = some p) {now : Nat} {wall : Int} {box : Outbox}
    (b : p.Beat now wall box j o) (effect : BeatEffect w id j p o v) : v.Guarded := by
  intro id' p' hp' hgated
  rw [effect.publishers] at hp'
  rw [effect.contenders]
  split at hp'
  · subst id'
    obtain rfl := Option.some.inj hp'
    obtain ⟨loops, heq⟩ := b.exists_loops
    rw [heq] at hgated ⊢
    obtain ⟨c, hc, guards⟩ := h _ _ was hgated
    exact ⟨c, hc, guards.of_publisher rfl fun _ => rfl⟩
  · exact h _ _ hp' hgated

theorem guarded_move (h : w.Guarded) (m : Move) : (w.move m).Guarded := by
  cases m with
  | openContender id options =>
    simp only [move]
    split
    · exact h
    · rename_i hfree
      have habsent := (eq_none_of_free (Bool.eq_false_iff.2 hfree)).2
      cases hv : w.openContender id options with
      | error e => exact h
      | ok v =>
        obtain ⟨y, -, hv⟩ := exists_of_bind_ok hv
        obtain rfl := Except.ok.inj hv
        exact h.enrol habsent y
  | openPublisher id config replicator outbox bucket? relaxations =>
    simp only [move]
    split
    · exact h
    · cases hv : w.openPublisher id config replicator outbox bucket? relaxations with
      | error e => exact h
      | ok v => exact h.openPublisher hv
  | callRun id cancelled =>
    exact h.modifyContender id fun _ guards =>
      guards.of_spared (.start .refl _ _) Contender.run_of_start
  | cancelRun id i =>
    exact h.modifyContender id fun _ guards =>
      guards.of_spared (.cancelRun .refl i) Contender.run_of_cancelRun
  | cancelContender id =>
    exact h.modifyContender id fun _ guards =>
      guards.of_spared (.cancel .refl _) Contender.run_of_cancel
  | startPublisher id cancelled => exact h.startPublisher id cancelled
  | cancelPublisher id => exact h.cancelPublisher id
  | stopPublisherAt id due =>
    exact h.modifyPublisher id (fun _ => rfl) (fun _ => rfl) fun _ _ => rfl
  | look id =>
    exact h.modifyContender id fun _ guards =>
      ⟨guards.audience, guards.cancelled, guards.paused⟩
  | poll task draw =>
    cases task with
    | run id i =>
      cases hc : w.contenders.get? id with
      | none => simpa only [move, poll, pollRun, hc] using h
      | some c =>
        obtain ⟨o, turn, effect⟩ := pollRun_effect hc i draw
        exact h.turn hc turn effect
    | loop id j =>
      cases hp : w.publishers.get? id with
      | none => simpa only [move, poll, pollLoop, hp] using h
      | some p =>
        obtain ⟨o, beat, effect⟩ := pollLoop_effect hp j
        exact h.beat hp beat effect
    | closing id => exact h.pollClosing id
    | stopping id =>
      simp only [move, poll, pollStopping]
      split
      · exact h.cancelPublisher id
      · exact h
  | _ => exact h.of_eq rfl rfl

end

theorem guarded_follow (host : String) (wall : Int) (now : Nat) (course : List Move) :
    ((fresh host wall now).follow course).Guarded :=
  follow_induct course (I := Guarded) (fun _ _ h => by simp at h) fun _ m h => guarded_move h m

end World

/-! ## Calls of others -/

namespace World

variable {w : World} {id : String}

/-- Nobody but its publisher has called `run` of the contender. -/
def RunByPublisher (w : World) (id : String) : Prop :=
  ∀ c, w.contenders.get? id = some c → c.AllTied

instance (w : World) (id : String) : Decidable (w.RunByPublisher id) :=
  decidable_of_iff ((w.contenders.get? id).all (·.runs.all (·.tied)) = true) <| by
    simp only [Option.all_eq_true, List.all_eq_true, RunByPublisher, Election.Contender.AllTied]

/-- Calls of `run` are not undone. -/
theorem RunByPublisher.of_move {m : Move} (h : (w.move m).RunByPublisher id) :
    w.RunByPublisher id := by
  intro c hc r hr
  obtain ⟨i, run⟩ := List.getElem?_of_mem hr
  obtain ⟨c', r', hc', run', same⟩ := exists_run_move hc run m
  exact same.symm.trans (h c' hc' r' (List.mem_of_getElem? run'))

theorem RunByPublisher.of_follow {course : List Move} (h : (w.follow course).RunByPublisher id) :
    w.RunByPublisher id := by
  induction course generalizing w with
  | nil => exact h
  | cons m course ih => exact (ih h).of_move

end World

/-! ## Heartbeats -/

namespace Publisher

variable {now : Nat} {wall : Int} {p : Publisher} {box : Outbox} {j : Nat} {o : Outcome}

/-- A heartbeat begins only while publication is not suspended. -/
theorem Beat.allowed (b : p.Beat now wall box j o) {m : Message}
    (h : .sending m ∈ o.happenings) : p.cancelled = false ∧ (p.gated && p.paused) = false := by
  cases b with
  | launches _ cancelled _ _ allowed _ | sends _ cancelled _ _ allowed _ =>
    exact ⟨cancelled, allowed⟩
  | still | ends | begins => exact nomatch h
  | passes | completes => exact nomatch List.mem_singleton.1 h

end Publisher

/-- Whether a heartbeat begins. -/
def Happening.isSending : Happening → Bool
  | .sending _ => true
  | _ => false

namespace World

/-- The loop begins a heartbeat in the move. -/
def Sends (w : World) (m : Move) (id : String) (j : Nat) : Prop :=
  ∃ msg, w.Records m (.loop id j) (.sending msg)

theorem sends_iff {w : World} {m : Move} {id : String} {j : Nat} :
    w.Sends m id j ↔
      ∃ e ∈ w.added m, e.time = w.now ∧ e.source = .loop id j ∧ e.what.isSending = true := by
  refine ⟨fun ⟨msg, h⟩ => ⟨_, records_iff.1 h, rfl, rfl, rfl⟩, fun ⟨e, he, ht, hs, hw⟩ => ?_⟩
  obtain ⟨time, source, what⟩ := e
  cases what with
  | sending msg =>
    obtain ⟨rfl, rfl⟩ := And.intro ht hs
    exact ⟨msg, records_iff.2 he⟩
  | _ => exact nomatch hw

instance (w : World) (m : Move) (id : String) (j : Nat) : Decidable (w.Sends m id j) :=
  decidable_of_iff _ sends_iff.symm

section

variable {w : World} {m : Move} {id : String}

/-- A loop of a gated publisher begins a heartbeat only before the publisher is cancelled, and only while
the contender is leader if nobody else has called `run`. -/
theorem Guarded.leader_of_sends (h : w.Guarded) {p : Publisher}
    (hp : w.publishers.get? id = some p) (hgated : p.gated = true) {j : Nat}
    (hsends : w.Sends m id j) :
    p.cancelled = false ∧ (w.RunByPublisher id →
      ∃ c, w.contenders.get? id = some c ∧ c.standing = .leader) := by
  obtain ⟨msg, hrec⟩ := hsends
  obtain ⟨p₀, draw, o, -, hp₀, beat, -, hmem⟩ := hrec.beat
  obtain rfl := Option.some.inj (hp.symm.trans hp₀)
  obtain ⟨hcan, hallowed⟩ := beat.allowed hmem
  obtain ⟨c, hc, guards⟩ := h id p hp hgated
  refine ⟨hcan, fun alone => ⟨c, hc, ?_⟩⟩
  rw [hgated, guards.paused (alone c hc) hcan] at hallowed
  simpa using hallowed

end

end World

end Tenure
