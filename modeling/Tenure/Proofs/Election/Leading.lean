import Tenure.Proofs.World.Moves

/-!
# The record of calls, and leaders

- **The record** (`answers`, `lastWrite?`, `unanswered?`): the answered calls of a contender, the
  last write it was granted, and the instant of a call on the store that has not been answered.
- **Leaders** (`Leads`, `leads`): the four ways in which a contender is leader after a move.
- **Memory** (`Recalls`, `recalls_follow`): the call of `run` of a leader remembers the revision of
  the last write that the contender was granted.
-/

namespace Tenure

open Election

namespace Election

/-- Whether the note tells of a call on the store. -/
def Note.isCall : Note → Bool
  | .asked _ | .answered _ _ => true
  | _ => false

/-- The answer that the note tells of. -/
def Note.reply? : Note → Option (Request × Answer)
  | .answered q a => some (q, a)
  | _ => none

/-- The answer that a note tells of, with its time. -/
def Note.timedReply? (x : Nat × Note) : Option (Nat × Request × Answer) := x.2.reply?.map (x.1, ·)

theorem Note.reply?_eq_none {n : Note} (h : n.isCall = false) : n.reply? = none := by
  cases n <;> first | rfl | exact nomatch h

theorem reply?_opening {r : Run} {q : Request} {n : Note} (h : n ∈ r.opening q) :
    n.reply? = none := by
  unfold Run.opening at h
  split at h
  · exact nomatch h
  · rw [List.mem_singleton.1 h]
    rfl

/-- After its answer a campaign makes no more calls on the store. -/
theorem isCall_conclusion {c : Contender} {r : Run} {answer? : Option Answer} {draw : Nat}
    {n : Note} (h : n ∈ (c.conclusion r answer?).notes ++
      (c.conclusion r answer?).wait.notes draw) : n.isCall = false := by
  rcases List.mem_append.1 h with h | h
  · simp only [Contender.conclusion, conclude, notesOf, List.mem_append, List.mem_singleton] at h
    rcases h with (h | h) | rfl
    · split at h
      · rw [List.mem_singleton.1 h]; rfl
      · cases h
    · split at h
      · cases h
      · split at h <;> rw [List.mem_singleton.1 h] <;> rfl
    · rfl
  · generalize (c.conclusion r answer?).wait = wait at h
    cases wait with
    | plain => cases h
    | backoff strategy failures =>
      simp only [Wait.notes] at h
      split at h
      · rw [List.mem_singleton.1 h]; rfl
      · cases h

theorem timedReplies_eq_nil {t : Nat} {notes : List Note} (h : ∀ n ∈ notes, n.reply? = none) :
    (notes.map (t, ·)).reverse.filterMap Note.timedReply? = [] := by
  rw [List.filterMap_eq_nil_iff]
  intro x hx
  obtain ⟨n, hn, rfl⟩ := List.mem_map.1 (List.mem_reverse.1 hx)
  simp [Note.timedReply?, h n hn]

theorem find?_isCall_eq_none {t : Nat} {notes : List Note} (h : ∀ n ∈ notes, n.isCall = false) :
    (notes.map (t, ·)).reverse.find? (·.2.isCall) = none := by
  rw [List.find?_eq_none]
  intro x hx
  obtain ⟨n, hn, rfl⟩ := List.mem_map.1 (List.mem_reverse.1 hx)
  simp [h n hn]

end Election

namespace World

/-! ## The record -/

/-- The answered calls of a contender with their times, latest first. -/
def answers (w : World) (id : String) : List (Nat × Request × Answer) :=
  (w.notes id).filterMap Note.timedReply?

/-- The time and the revision of the last write that a contender was granted. -/
def lastWrite? (w : World) (id : String) : Option (Nat × Nat) :=
  (w.answers id).findSome? fun x => x.2.2.toOption.map (x.1, ·)

/-- The instant of the latest call of a contender if that has not been answered. -/
def unanswered? (w : World) (id : String) : Option Nat :=
  ((w.notes id).find? (·.2.isCall)).bind fun x => if x.2.reply?.isNone then some x.1 else none

theorem lastWrite?_congr {v w : World} {id : String} (h : v.answers id = w.answers id) :
    v.lastWrite? id = w.lastWrite? id := by
  rw [lastWrite?, lastWrite?, h]

theorem lastWrite?_of_ok {v w : World} {id : String} {t revision : Nat} {q : Request}
    (h : v.answers id = (t, q, .ok revision) :: w.answers id) :
    v.lastWrite? id = some (t, revision) := by
  rw [lastWrite?, h]
  rfl

theorem lastWrite?_of_error {v w : World} {id : String} {t : Nat} {q : Request} {e : StoreError}
    (h : v.answers id = (t, q, .error e) :: w.answers id) :
    v.lastWrite? id = w.lastWrite? id := by
  rw [lastWrite?, h]
  rfl

section

variable {w v : World} {id : String} {y : Candidacy} {o : Election.Outcome}

theorem answers_of_notes (h : v.notes id = w.notes id) : v.answers id = w.answers id := by
  rw [answers, answers, h]

theorem unanswered?_of_notes (h : v.notes id = w.notes id) :
    v.unanswered? id = w.unanswered? id := by
  rw [unanswered?, unanswered?, h]

/-- Notes of no reply leave the answers as they are. -/
theorem Effect.answers_of_no_reply (h : Effect w id y o v)
    (hn : ∀ n ∈ o.notes, n.reply? = none) : v.answers id = w.answers id := by
  rw [answers, h.notes, if_pos rfl, List.filterMap_append, timedReplies_eq_nil hn,
    List.nil_append, answers]

/-- Notes of no call leave the unanswered call as it is. -/
theorem Effect.unanswered?_of_no_call (h : Effect w id y o v)
    (hn : ∀ n ∈ o.notes, n.isCall = false) : v.unanswered? id = w.unanswered? id := by
  rw [unanswered?, h.notes, if_pos rfl, List.find?_append, find?_isCall_eq_none hn,
    Option.none_or, unanswered?]

/-- A call that is noted and not answered. -/
theorem Effect.unanswered?_of_asked (h : Effect w id y o v) {q : Request}
    (hn : o.notes = [.asked q]) : v.unanswered? id = some w.now := by
  rw [unanswered?, h.notes, if_pos rfl, hn]
  rfl

/-- A call that is answered, with what is noted before and after. -/
theorem Effect.answered (h : Effect w id y o v) {q : Request} {a : Answer}
    {before after : List Note} (hn : o.notes = before ++ .answered q a :: after)
    (hb : ∀ n ∈ before, n.reply? = none) (ha : ∀ n ∈ after, n.isCall = false) :
    v.answers id = (w.now, q, a) :: w.answers id ∧ v.unanswered? id = none := by
  have hv : v.notes id = (after.map (w.now, ·)).reverse ++
      ((w.now, .answered q a) :: ((before.map (w.now, ·)).reverse ++ w.notes id)) := by
    rw [h.notes, if_pos rfl, hn]
    simp
  constructor
  · rw [answers, hv, List.filterMap_append,
      timedReplies_eq_nil fun n hmem => Note.reply?_eq_none (ha n hmem), List.nil_append,
      List.filterMap_cons_some (show Note.timedReply? (w.now, .answered q a) = some (w.now, q, a)
        from rfl), List.filterMap_append,
      timedReplies_eq_nil hb, List.nil_append, answers]
  · rw [unanswered?, hv, List.find?_append, find?_isCall_eq_none ha, Option.none_or,
      List.find?_cons_of_pos (by rfl)]
    rfl

/-- A turn adds at most one answer to the record. -/
theorem Effect.answers_cases (h : Effect w id y o v) {now delay draw i : Nat} {c : Contender}
    {s : Lease.Store} (t : Turn now delay draw c s i o) :
    ((∀ n ∈ o.notes, n.reply? = none) ∧ v.answers id = w.answers id) ∨
      ∃ q a, .answered q a ∈ o.notes ∧ v.answers id = (w.now, q, a) :: w.answers id := by
  have mute (hn : ∀ n ∈ o.notes, n.reply? = none) :
      (∀ n ∈ o.notes, n.reply? = none) ∧ v.answers id = w.answers id :=
    ⟨hn, h.answers_of_no_reply hn⟩
  cases t with
  | still | refused | left => exact .inl (mute nofun)
  | asks =>
    refine .inl (mute fun n hn => ?_)
    rw [List.mem_singleton.1 hn]
    rfl
  | acts =>
    refine .inr ⟨_, _, List.mem_append_right _ (List.mem_cons_self ..), ?_⟩
    exact (h.answered rfl (fun n => reply?_opening) fun n => isCall_conclusion).1
  | breaks => exact .inl (mute fun n => reply?_opening)
  | idles => exact .inl (mute fun n hn => Note.reply?_eq_none (isCall_conclusion hn))

end

/-- A move adds at most one answer to the record of a contender, and records it. -/
theorem answers_move (w : World) (m : Move) (id : String) :
    (w.move m).answers id = w.answers id ∨
      ∃ q a, w.Records m (.contender id) (.noted (.answered q a)) ∧
        (w.move m).answers id = (w.now, q, a) :: w.answers id := by
  cases w.played m with
  | @turn id' c i draw o poll was turn effect =>
    by_cases hid : id' = id
    · subst id'
      rcases effect.answers_cases turn with ⟨-, h⟩ | ⟨q, a, hn, h⟩
      · exact .inl h
      · exact .inr ⟨q, a, effect.records hn, h⟩
    · exact .inl (answers_of_notes (by rw [effect.notes, if_neg hid, List.nil_append]))
  | beat _ _ _ effect => exact .inl (answers_of_notes (effect.notes id))
  | call called => exact .inl (answers_of_notes (notes_congr called.recast.history id))
  | stage staged => exact .inl (answers_of_notes (notes_congr staged.history id))

/-! ## Leaders -/

theorem revision?_after_ok (ledger : Ledger) (before : Standing) (revision : Nat) :
    (ledger.after before (some (.ok revision))).revision? = some revision := by
  cases before <;> rfl

/-- After a granted write a contender waits for its campaign interval. -/
theorem phase_wait_of_ok (c : Contender) (r : Run) (revision now : Nat) (interval : Duration)
    (draw : Nat) :
    (c.conclusion r (some (.ok revision))).wait.phase now interval draw =
      .waiting (Clock.wake now interval.nanos) := by
  simp [Contender.conclusion, conclude, standingAfter, waitAfter, Wait.phase]

/-- How a contender is leader after a move. -/
inductive Leads (w : World) (m : Move) (id : String) (c' : Contender) : Prop
  /-- It was leader before, and its call of `run` has not gone on. -/
  | keeps {c : Contender} {i : Nat} {r : Run} {cancelled : Bool}
      (was : w.contenders.get? id = some c) (led : c.standing = .leader) (work : AtWork c i r)
      (holds : r.phase.holdsLoop = true) (work' : AtWork c' i { r with cancelled := cancelled })
      (answers : (w.move m).answers id = w.answers id)
      (unanswered : (w.move m).unanswered? id = w.unanswered? id)
  /-- It was granted a write and waits for the next campaign. -/
  | wrote {c : Contender} {i : Nat} {r' : Run} {q : Request} {revision : Nat}
      (was : w.contenders.get? id = some c) (work' : AtWork c' i r')
      (phase : r'.phase = .waiting (Clock.wake w.now c'.candidacy.interval.nanos))
      (remembers : r'.ledger.revision? = some revision)
      (records : w.Records m (.contender id) (.noted (.answered q (.ok revision))))
      (answers : (w.move m).answers id = (w.now, q, .ok revision) :: w.answers id)
  /-- It was leader before, and its renewal is held back. -/
  | asks {c : Contender} {i : Nat} {r : Run} {q : Request} {t due : Nat}
      (was : w.contenders.get? id = some c) (led : c.standing = .leader) (work : AtWork c i r)
      (phase : r.phase = .waiting t) (work' : AtWork c' i { r with phase := .calling q w.now due })
      (answers : (w.move m).answers id = w.answers id)
      (unanswered : (w.move m).unanswered? id = some w.now)
  /-- It was leader before, and its renewal broke off. -/
  | breaks {c : Contender} {i : Nat} {r : Run} (was : w.contenders.get? id = some c)
      (led : c.standing = .leader) (work : AtWork c i r) (phase : r.phase.inLoop = true)
      (work' : AtWork c' i { r with phase := .broken })
      (answers : (w.move m).answers id = w.answers id)
      (unanswered : (w.move m).unanswered? id =
        if r.phase.waitsUntil?.isSome then some w.now else w.unanswered? id)

/-- A leader is in one of these ways leader after a move. -/
theorem leads {w : World} (hw : w.Ordered) {m : Move} {id : String} {c' : Contender}
    (hc' : (w.move m).contenders.get? id = some c') (hlead : c'.standing = .leader) :
    Leads w m id c' := by
  cases became hc' with
  | opened _ _ new _ => exact nomatch new ▸ hlead
  | @aside c was aside quiet =>
    have led : c.standing = .leader := aside.standing ▸ hlead
    obtain ⟨i, r, work, holds⟩ := (hw was).atWork_of_leader led
    obtain ⟨b, work'⟩ := aside.atWork work
    exact .keeps was led work holds work' (answers_of_notes quiet) (unanswered?_of_notes quiet)
  | @turn c i draw o poll was turn effect after =>
    subst after
    have hord := hw was
    cases turn with
    | still =>
      obtain ⟨i, r, work, holds⟩ := hord.atWork_of_leader hlead
      exact .keeps was hlead work holds work (effect.answers_of_no_reply nofun)
        (effect.unanswered?_of_no_call nofun)
    | refused run phase _ =>
      obtain ⟨j, r, work, holds⟩ := hord.atWork_of_leader hlead
      exact .keeps was hlead work holds (work.refuse holds run phase)
        (effect.answers_of_no_reply nofun) (effect.unanswered?_of_no_call nofun)
    | left _ _ => exact nomatch hlead
    | @asks d r q e _ _ anew request _ =>
      have led : c.standing = .leader := e.standing ▸ hlead
      obtain ⟨j, r₀, work, -⟩ := hord.atWork_of_leader led
      obtain ⟨rfl, rfl, rfl, phase⟩ := e.eq_of_atWork work
      obtain ⟨t, ht⟩ := r.phase.exists_waiting phase anew
      refine .asks was led work ht (work.setPhase _) (effect.answers_of_no_reply ?_)
        (effect.unanswered?_of_asked rfl)
      intro n hn
      rw [List.mem_singleton.1 hn]
      rfl
    | @acts d r q s' a e _ _ call performs _ =>
      obtain ⟨work, -⟩ := e.atWork hord
      have hrec := effect.answered rfl (fun n => reply?_opening) fun n => isCall_conclusion
      rw [Contender.standing_concluded] at hlead
      cases a with
      | error => exact nomatch hlead
      | ok revision =>
        refine .wrote was (work.concluded ..) ?_ (revision?_after_ok ..)
          (effect.records (List.mem_append_right _ (List.mem_cons_self ..))) hrec.1
        rw [Contender.candidacy_concluded]
        exact phase_wait_of_ok ..
    | @breaks d r q s' e _ _ call _ =>
      have led : c.standing = .leader := e.standing ▸ hlead
      obtain ⟨j, r₀, work, -⟩ := hord.atWork_of_leader led
      obtain ⟨rfl, rfl, rfl, phase⟩ := e.eq_of_atWork work
      refine .breaks was led work phase (work.setPhase _)
        (effect.answers_of_no_reply fun n => reply?_opening) ?_
      cases hph : r.phase with
      | waiting t =>
        exact effect.unanswered?_of_asked (q := q) (by simp [Run.opening, hph])
      | calling q' asked t =>
        exact effect.unanswered?_of_no_call (by simp [Run.opening, hph])
      | _ => exact absurd phase (by simp [hph, Phase.inLoop])
    | idles e _ _ _ request => exact absurd request (Turn.request?_ne_none e hord)

/-- The call of `run` of a leader remembers the last write that the contender was granted. -/
def Recalls (w : World) (id : String) (c : Contender) : Prop :=
  c.standing = .leader → ∃ i r t revision, AtWork c i r ∧ r.ledger.revision? = some revision ∧
    w.lastWrite? id = some (t, revision)

theorem recalls_move {w : World} (hw : w.Ordered)
    (h : ∀ {id c}, w.contenders.get? id = some c → w.Recalls id c) {m : Move} {id : String}
    {c' : Contender} (hc' : (w.move m).contenders.get? id = some c') :
    (w.move m).Recalls id c' := by
  intro hlead
  -- a call of `run` that was at work remembers what it remembered before
  have kept {c : Contender} {i : Nat} {r : Run} (was : w.contenders.get? id = some c)
      (led : c.standing = .leader) (work : AtWork c i r)
      (holds : r.phase.holdsLoop = true) (answers : (w.move m).answers id = w.answers id) :
      ∃ t revision,
      r.ledger.revision? = some revision ∧ (w.move m).lastWrite? id = some (t, revision) := by
    obtain ⟨i₀, r₀, t, revision, work₀, remembers, last⟩ := h was led
    obtain ⟨-, rfl⟩ := work.unique work₀ holds
    exact ⟨t, revision, remembers, (lastWrite?_congr answers).trans last⟩
  cases leads hw hc' hlead with
  | keeps was led work holds work' answers _ =>
    obtain ⟨t, revision, remembers, last⟩ := kept was led work holds answers
    exact ⟨_, _, t, revision, work', remembers, last⟩
  | wrote _ work' _ remembers _ answers =>
    exact ⟨_, _, w.now, _, work', remembers, lastWrite?_of_ok answers⟩
  | asks was led work phase work' answers _ =>
    obtain ⟨t, revision, remembers, last⟩ := kept was led work (by rw [phase]; rfl) answers
    exact ⟨_, _, t, revision, work', remembers, last⟩
  | breaks was led work phase work' answers _ =>
    have holds := Phase.holdsLoop_of_inLoop phase
    obtain ⟨t, revision, remembers, last⟩ := kept was led work holds answers
    exact ⟨_, _, t, revision, work', remembers, last⟩

theorem recalls_follow (host : String) (wall : Int) (now : Nat) (course : List Move) {id : String}
    {c : Contender} (hc : ((fresh host wall now).follow course).contenders.get? id = some c) :
    ((fresh host wall now).follow course).Recalls id c := by
  have h := follow_induct course (w := fresh host wall now)
    (I := fun w => w.Ordered ∧ ∀ {id c}, w.contenders.get? id = some c → w.Recalls id c)
    ⟨fun h => by simp at h, fun h => by simp at h⟩
    fun v m h => ⟨ordered_move h.1 m, recalls_move h.1 h.2⟩
  exact h.2 hc

end World

end Tenure
