import Tenure.Election.Campaign

/-!
# What campaigns tell

- **Chronicles** (`chapter`, `chronicle`): what a sequence of campaigns tells if the store answers
  them in a given way. A campaign is known by its number, the answer before it and its own answer.
- **Changes and ticks** (`changes_alternate`, `ticks_chronicleFrom`): wins and losses come by
  turns, and the numbers of campaigns without a gap.
- **The loop** (`recite`, `filter_recite`): campaigns conclude as the chronicle of their answers
  says, whatever the store answers.
-/

namespace Tenure

namespace Election

/-! ## Chronicles -/

/-- The call of a campaign by the answer before it: a revision that was written is renewed. -/
def requestAfter : Option Answer → Request
  | some (.ok revision) => .renew revision
  | _ => .acquire

/-- What a campaign tells, by its number, the answer before it and its own. -/
def chapter (n : Nat) (previous? : Option Answer) (a : Answer) : List Note :=
  let before := standingAfter previous?
  let after := standingAfter (some a)
  let request := requestAfter previous?
  [.asked request, .answered request a] ++
    (match before, after with
      | .candidate, .leader => [.won .leader]
      | .leader, .candidate => [.lost .candidate]
      | _, _ => []) ++
    [.campaigned n after (before ≠ after)]

/-- What campaigns tell from the `n`-th on. -/
def chronicleFrom (n : Nat) (previous? : Option Answer) : List Answer → List Note
  | [] => []
  | a :: answers => chapter n previous? a ++ chronicleFrom (n + 1) (some a) answers

/-- What the campaigns of a call of `run` tell if the store answers them like this. -/
def chronicle (answers : List Answer) : List Note := chronicleFrom 0 none answers

/-- Whether a note is about the store or for the listener. The others are about the backoff. -/
def Note.isTold : Note → Bool
  | .backoffReset | .backedOff _ _ => false
  | _ => true

/-- The standing that a listener hears of as new. -/
def Note.change? : Note → Option Standing
  | .won _ => some .leader
  | .lost _ => some .candidate
  | _ => none

/-- The standing that a note tells a listener of. -/
def Note.seen? : Note → Option Standing
  | .won seen | .lost seen => some seen
  | .campaigned _ standing _ => some standing
  | _ => none

/-- The number of the campaign that a listener hears of. -/
def Note.tick? : Note → Option Nat
  | .campaigned tick _ _ => some tick
  | _ => none

theorem chronicleFrom_append (n : Nat) (previous? : Option Answer) (first second : List Answer) :
    chronicleFrom n previous? (first ++ second) = chronicleFrom n previous? first ++
      chronicleFrom (n + first.length) (first.getLast?.or previous?) second := by
  induction first generalizing n previous? with
  | nil => simp [chronicleFrom]
  | cons a first ih =>
    rw [List.cons_append, chronicleFrom, ih, chronicleFrom, List.append_assoc, List.length_cons,
      show n + 1 + first.length = n + (first.length + 1) by omega, List.getLast?_cons]
    cases first.getLast? <;> rfl

theorem chronicle_concat (answers : List Answer) (a : Answer) :
    chronicle (answers ++ [a]) =
      chronicle answers ++ chapter answers.length answers.getLast? a := by
  rw [chronicle, chronicleFrom_append, Nat.zero_add, Option.or_none]
  simp [chronicleFrom, chronicle]

theorem changes_chapter (n : Nat) (previous? : Option Answer) (a : Answer) :
    (chapter n previous? a).filterMap Note.change? =
      if standingAfter previous? = standingAfter (some a) then []
      else [standingAfter (some a)] := by
  simp only [chapter]
  cases standingAfter previous? <;> cases standingAfter (some a) <;> rfl

theorem ticks_chapter (n : Nat) (previous? : Option Answer) (a : Answer) :
    (chapter n previous? a).filterMap Note.tick? = [n] := by
  simp only [chapter]
  cases standingAfter previous? <;> cases standingAfter (some a) <;> rfl

/-- Listeners hear of wins and losses by turns: of the contrary of the standing before first, and so
at every even place. -/
theorem changes_alternate {n k : Nat} {previous? : Option Answer} {answers : List Answer}
    {seen : Standing}
    (h : ((chronicleFrom n previous? answers).filterMap Note.change?)[k]? = some seen) :
    seen = standingAfter previous? ↔ k % 2 = 1 := by
  induction answers generalizing n previous? k with
  | nil => cases h
  | cons a answers ih =>
    rw [chronicleFrom, List.filterMap_append, changes_chapter] at h
    split at h
    · rename_i same
      rw [same]
      exact ih h
    · rename_i changed
      cases k with
      | zero =>
        obtain rfl := Option.some.inj h
        exact ⟨fun he => absurd he.symm changed, fun hk => by omega⟩
      | succ k =>
        have := ih (k := k) h
        have flip : seen = standingAfter previous? ↔ ¬ seen = standingAfter (some a) := by
          revert changed
          cases seen <;> cases standingAfter previous? <;> cases standingAfter (some a) <;> simp
        rw [flip, this]
        omega

theorem ticks_chronicleFrom (n : Nat) (previous? : Option Answer) (answers : List Answer) :
    (chronicleFrom n previous? answers).filterMap Note.tick? = List.range' n answers.length := by
  induction answers generalizing n previous? with
  | nil => rfl
  | cons a answers ih =>
    rw [chronicleFrom, List.filterMap_append, ih, ticks_chapter, List.length_cons,
      List.range'_succ]
    rfl

/-! ## The loop -/

/-- What campaigns note one after another, from a standing and a ledger on, if the store answers
them like this. -/
def recite (backoff? : Option Backoff) (standing : Standing) (ledger : Ledger) :
    List Answer → List Note
  | [] => []
  | a :: answers =>
    match request? standing ledger with
    | none => []
    | some q =>
      let e := conclude backoff? standing ledger (some a)
      .asked q :: .answered q a :: (e.notes ++ recite backoff? e.standing e.ledger answers)

/-- What campaigns remember that the store has answered like this. -/
structure UpToDate (s : Standing) (ledger : Ledger) (answers : List Answer) : Prop where
  standing : s = standingAfter answers.getLast?
  tick : ledger.tick = answers.length
  request : request? s ledger = some (requestAfter answers.getLast?)

theorem upToDate_nil : UpToDate .candidate {} [] := ⟨rfl, rfl, rfl⟩

/-- A campaign tells listeners of the standing after it. -/
theorem seen?_conclude {backoff? : Option Backoff} {before seen : Standing} {ledger : Ledger}
    {answer? : Option Answer} {n : Note}
    (h : n ∈ (conclude backoff? before ledger answer?).notes) (hs : n.seen? = some seen) :
    seen = standingAfter answer? := by
  simp only [conclude, notesOf, List.mem_append, List.mem_singleton] at h
  rcases h with (h | h) | rfl
  · split at h
    · rw [List.mem_singleton.1 h] at hs
      cases hs
    · cases h
  · split at h
    · cases h
    · split at h <;> rw [List.mem_singleton.1 h] at hs <;> exact (Option.some.inj hs).symm
  · exact (Option.some.inj hs).symm

theorem tick_after (ledger : Ledger) (before : Standing) (a : Answer) :
    (ledger.after before (some a)).tick = ledger.tick + 1 := by
  cases before <;> cases a <;> rfl

theorem request?_after (ledger : Ledger) (before : Standing) (a : Answer) :
    request? (standingAfter (some a)) (ledger.after before (some a)) =
      some (requestAfter (some a)) := by
  cases before <;> cases a <;> rfl

section

variable {standing : Standing} {ledger : Ledger} {answers : List Answer}

theorem UpToDate.conclude (h : UpToDate standing ledger answers) (a : Answer) :
    UpToDate (standingAfter (some a)) (ledger.after standing (some a)) (answers ++ [a]) where
  standing := by rw [List.getLast?_concat]
  tick := by rw [tick_after, h.tick, List.length_append, List.length_singleton]
  request := by rw [List.getLast?_concat, request?_after]

/-- The notes of a campaign are its chapter. -/
theorem UpToDate.chapter (h : UpToDate standing ledger answers) (backoff? : Option Backoff)
    (a : Answer) :
    (.asked (requestAfter answers.getLast?) :: .answered (requestAfter answers.getLast?) a ::
      (Election.conclude backoff? standing ledger (some a)).notes).filter Note.isTold =
        Election.chapter answers.length answers.getLast? a := by
  simp only [Election.conclude, Election.chapter, h.tick, ← h.standing]
  cases backoff? <;> cases standing <;> cases a <;> rfl

/-- The campaigns tell the chronicle of their answers. -/
theorem UpToDate.recite (h : UpToDate standing ledger answers) (backoff? : Option Backoff)
    (more : List Answer) :
    (Election.recite backoff? standing ledger more).filter Note.isTold =
      chronicleFrom answers.length answers.getLast? more := by
  induction more generalizing standing ledger answers with
  | nil => rfl
  | cons a more ih =>
    have first := h.chapter backoff? a
    have rest := ih (h.conclude a)
    rw [List.getLast?_concat, List.length_append, List.length_singleton] at rest
    rw [Election.recite, h.request, chronicleFrom, ← first, ← rest, ← List.filter_append]
    rfl

end

theorem filter_recite (backoff? : Option Backoff) (answers : List Answer) :
    (recite backoff? .candidate {} answers).filter Note.isTold = chronicle answers :=
  upToDate_nil.recite backoff? answers

end Election

end Tenure
