import Tenure.Proofs.Election.Leading

/-!
# Punctual leaders

A leader renews its lease once per campaign interval. As long as it goes on at most a millisecond
after its wait has ended, the instant of its last granted write bounds where it can stand.

- **On time** (`OnTime`): the premise on the waits of a contender.
- **Bounds** (`Prompt`, `Punctual`): a leader waits until an interval after its last granted write at
  most, or has made its renewal a millisecond later at most.
- **Courses** (`punctual_along`): a contender that is on time all along is punctual.
-/

namespace Tenure

open Election

/-- Whether the call of `run` waits for an answer of the store. One that broke off waits for ever. -/
def Election.Phase.isOutstanding : Phase → Bool
  | .calling _ _ _ | .broken => true
  | _ => false

namespace World

/-- The contender goes on at most a millisecond after its wait for the next campaign has ended. -/
def OnTime (id : String) (w : World) : Prop :=
  ∀ c ∈ w.contenders.get? id, ∀ r ∈ c.runs, ∀ due ∈ r.phase.waitsUntil?,
    w.now ≤ due + nanosPerMilli

instance (id : String) : DecidablePred (OnTime id) := fun w => by
  unfold OnTime
  infer_instance

theorem OnTime.le {w : World} {id : String} (h : w.OnTime id) {c : Contender} {i due : Nat}
    {r : Run} (hc : w.contenders.get? id = some c) (work : AtWork c i r)
    (phase : r.phase = .waiting due) : w.now ≤ due + nanosPerMilli :=
  h c hc r (List.mem_of_getElem? work.run) due (by simp [phase, Phase.waitsUntil?])

/-- Where a call of `run` can stand whose wait ends at `limit` at the latest: a call on the store
that has not been answered was made a millisecond later at most. -/
def Prompt (w : World) (id : String) (limit : Nat) : Phase → Prop
  | .waiting due => due ≤ limit
  | .calling _ _ _ | .broken =>
    ∃ asked, w.unanswered? id = some asked ∧ asked ≤ limit + nanosPerMilli
  | .fresh | .over => False

/-- A leader stands where an interval after its last granted write allows. -/
def Punctual (w : World) (id : String) (c : Contender) : Prop :=
  c.standing = .leader → ∃ i r t revision, AtWork c i r ∧ r.phase.holdsLoop = true ∧
    w.lastWrite? id = some (t, revision) ∧
    w.Prompt id (t + c.candidacy.interval.nanos) r.phase

theorem Prompt.congr {v w : World} {id : String} {limit : Nat} {p : Phase}
    (h : w.Prompt id limit p) (hv : v.unanswered? id = w.unanswered? id) :
    v.Prompt id limit p := by
  cases p with
  | calling | broken =>
    obtain ⟨asked, hasked, hle⟩ := h
    exact ⟨asked, hv.trans hasked, hle⟩
  | _ => exact h

theorem punctual_move {w : World} (hw : w.Ordered) {id : String} (ontime : w.OnTime id)
    (h : ∀ {c}, w.contenders.get? id = some c → w.Punctual id c) {m : Move} {c' : Contender}
    (hc' : (w.move m).contenders.get? id = some c') : (w.move m).Punctual id c' := by
  intro hlead
  -- a call of `run` that was at work stands where the last write allows
  have prompt {c : Contender} {i : Nat} {r : Run} (was : w.contenders.get? id = some c)
      (led : c.standing = .leader) (work : AtWork c i r) (holds : r.phase.holdsLoop = true)
      (answers : (w.move m).answers id = w.answers id) :
      ∃ t revision, (w.move m).lastWrite? id = some (t, revision) ∧
        w.Prompt id (t + c'.candidacy.interval.nanos) r.phase := by
    obtain ⟨i₀, r₀, t, revision, work₀, -, last, hprompt⟩ := h was led
    obtain ⟨-, rfl⟩ := work.unique work₀ holds
    rw [candidacy_move was hc']
    exact ⟨t, revision, (lastWrite?_congr answers).trans last, hprompt⟩
  cases leads hw hc' hlead with
  | keeps was led work holds work' answers unanswered =>
    obtain ⟨t, revision, last, hprompt⟩ := prompt was led work holds answers
    exact ⟨_, _, t, revision, work', holds, last, hprompt.congr unanswered⟩
  | @wrote c i r' q revision was work' phase _ _ answers =>
    refine ⟨i, r', w.now, revision, work', by rw [phase]; rfl, lastWrite?_of_ok answers, ?_⟩
    rw [phase]
    exact Clock.wake_le ..
  | @asks c i r q due due' was led work phase work' answers unanswered =>
    obtain ⟨t, revision, last, hprompt⟩ := prompt was led work (by rw [phase]; rfl) answers
    rw [phase] at hprompt
    have hdue : due ≤ t + c'.candidacy.interval.nanos := hprompt
    have hnow := ontime.le was work phase
    refine ⟨i, _, t, revision, work', rfl, last, w.now, unanswered, ?_⟩
    omega
  | @breaks c i r was led work inLoop work' answers unanswered =>
    obtain ⟨t, revision, last, hprompt⟩ :=
      prompt was led work (Phase.holdsLoop_of_inLoop inLoop) answers
    refine ⟨i, _, t, revision, work', rfl, last, ?_⟩
    cases phase : r.phase with
    | waiting due =>
      rw [phase] at hprompt unanswered
      have hdue : due ≤ t + c'.candidacy.interval.nanos := hprompt
      have hnow := ontime.le was work phase
      refine ⟨w.now, unanswered, ?_⟩
      omega
    | calling q asked due =>
      rw [phase] at hprompt unanswered
      obtain ⟨asked, hasked, hle⟩ := hprompt
      exact ⟨asked, unanswered.trans hasked, hle⟩
    | _ => exact absurd inLoop (by simp [phase, Phase.inLoop])

/-- A contender that is on time all along is punctual. -/
theorem punctual_along (host : String) (wall : Int) (now : Nat) {course : List Move} {id : String}
    (ontime : (fresh host wall now).Along (OnTime id) course) {c : Contender}
    (hc : ((fresh host wall now).follow course).contenders.get? id = some c) :
    ((fresh host wall now).follow course).Punctual id c := by
  have h := along_induct ontime
    (I := fun w => w.Ordered ∧ ∀ {c}, w.contenders.get? id = some c → w.Punctual id c)
    ⟨fun h => by simp at h, fun h => by simp at h⟩
    fun v m _ hv h => ⟨ordered_move h.1 m, punctual_move h.1 hv h.2⟩
  exact h.2 hc

end World

end Tenure
