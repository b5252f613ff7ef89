import Tenure.Proofs.World.Moves

/-!
# How long contenders wait

- **Limits** (`Candidacy.WaitsWithin`): neither the campaign interval nor any answer of the backoff is
  longer than the limit.
- **Waits** (`waits_follow`): a wait that is under way ends within the limit from now on.
-/

namespace Tenure

namespace Election

/-! ## Limits -/

/-- Neither the campaign interval nor any wait of the backoff is longer than so many nanoseconds. -/
def Candidacy.WaitsWithin (y : Candidacy) (limit : Nat) : Prop :=
  y.interval.nanos ≤ limit ∧
    ∀ b ∈ y.backoff?, ∀ failures draw d, b.next failures draw = .ok d → d.nanos ≤ limit

/-- A wait that begins after a campaign ends within the limit. -/
theorem Contender.due_le {c : Contender} {r : Run} {answer? : Option Answer}
    {now draw due limit : Nat} (h : c.candidacy.WaitsWithin limit)
    (hdue : (c.conclusion r answer?).wait.phase now c.candidacy.interval draw = .waiting due) :
    due ≤ now + limit := by
  have hwake (nanos : Nat) (hle : nanos ≤ limit) : Clock.wake now nanos ≤ now + limit := by
    have := Clock.wake_le now nanos
    omega
  have plain (hp : Phase.waiting (Clock.wake now c.candidacy.interval.nanos) = .waiting due) :
      due ≤ now + limit := by
    cases hp
    exact hwake _ h.1
  simp only [Contender.conclusion, conclude, waitAfter] at hdue
  split at hdue
  · rename_i strategy standing hbackoff _
    split at hdue
    · simp only [Wait.phase] at hdue
      split at hdue
      · rename_i d hd
        cases hdue
        exact hwake _ (h.2 _ hbackoff _ _ _ hd)
      · cases hdue
    · exact plain hdue
  · exact plain hdue

/-- A wait that is under way after a turn was under way before, or began in the turn. -/
theorem Turn.due_le {now delay draw : Nat} {c : Contender} {s : Lease.Store} {i : Nat} {o : Outcome}
    (t : Turn now delay draw c s i o) {j due limit : Nat} {r' : Run}
    (hr' : o.contender.runs[j]? = some r') (phase : r'.phase = .waiting due)
    (h : c.candidacy.WaitsWithin limit) :
    (∃ r, c.runs[j]? = some r ∧ r.phase = .waiting due) ∨ due ≤ now + limit := by
  -- a call of `run` that takes the loop does not begin to wait by that
  have engaged {d : Contender} {r : Run} (e : Engages c i d r) {j : Nat} {r' : Run}
      (hr' : d.runs[j]? = some r') (phase : r'.phase = .waiting due) :
      ∃ r, c.runs[j]? = some r ∧ r.phase = .waiting due := by
    cases e with
    | begins run fresh _ =>
      rw [show (c.enter i).runs = (c.modifyRun i _).runs from rfl,
        Contender.getElem?_modifyRun] at hr'
      split at hr'
      · obtain ⟨r₀, hr₀, rfl⟩ := Option.map_eq_some_iff.1 hr'
        exact ⟨r₀, hr₀, phase⟩
      · exact ⟨r', hr', phase⟩
    | goesOn => exact ⟨r', hr', phase⟩
  have moved {d : Contender} (p : Phase) (hr' : (d.setPhase i p).runs[j]? = some r')
      (hp : p ≠ .waiting due) : d.runs[j]? = some r' := by
    rw [Contender.getElem?_setPhase] at hr'
    split at hr'
    · obtain ⟨r₀, -, rfl⟩ := Option.map_eq_some_iff.1 hr'
      exact absurd phase hp
    · exact hr'
  have concluded {d : Contender} {r : Run} {answer? : Option Answer} (e : Engages c i d r)
      (hr' : (d.concluded i (d.conclusion r answer?) now draw).runs[j]? = some r') :
      (∃ r, c.runs[j]? = some r ∧ r.phase = .waiting due) ∨ due ≤ now + limit := by
    rw [Contender.getElem?_concluded] at hr'
    split at hr'
    · obtain ⟨r₀, -, rfl⟩ := Option.map_eq_some_iff.1 hr'
      exact .inr (Contender.due_le (e.candidacy.symm ▸ h) phase)
    · exact .inl (engaged e hr' phase)
  cases t with
  | still => exact .inl ⟨r', hr', phase⟩
  | refused => exact .inl ⟨r', moved .over hr' nofun, phase⟩
  | left e => exact .inl (engaged e (moved .over hr' nofun) phase)
  | asks e => exact .inl (engaged e (moved (.calling _ _ _) hr' nofun) phase)
  | breaks e => exact .inl (engaged e (moved .broken hr' nofun) phase)
  | acts e | idles e => exact concluded e hr'

end Election

namespace World

open Election

/-! ## Waits -/

/-- Every wait of a contender ends within any limit that it keeps to. -/
def Waits (w : World) : Prop :=
  ∀ {id c} {j : Nat} {r : Run} {due limit}, w.contenders.get? id = some c →
    c.runs[j]? = some r → r.phase = .waiting due → c.candidacy.WaitsWithin limit → due ≤ w.now + limit

theorem waits_move {w : World} (h : w.Waits) (m : Move) : (w.move m).Waits := by
  intro id c' j r' due limit hc' hr' phase hlimit
  have hnow := now_le_move w m
  cases became hc' with
  | opened _ _ new _ =>
    subst new
    cases hr'
  | aside was aside _ =>
    rw [aside.candidacy] at hlimit
    rcases aside.run hr' with ⟨b, hr⟩ | ⟨b, t, rfl⟩
    · have := h was hr phase hlimit
      omega
    · cases phase
  | turn _ was turn _ after =>
    subst after
    rw [turn.candidacy] at hlimit
    rcases turn.due_le hr' phase hlimit with ⟨r, hr, hphase⟩ | hle
    · have := h was hr hphase hlimit
      omega
    · omega

theorem waits_follow (host : String) (wall : Int) (now : Nat) (course : List Move) :
    ((fresh host wall now).follow course).Waits :=
  follow_induct course (I := Waits) (fun h => by simp at h) fun _ m h => waits_move h m

end World

end Tenure
