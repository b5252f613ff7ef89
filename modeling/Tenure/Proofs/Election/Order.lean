import Tenure.Proofs.Election.Turn

/-!
# The order of a contender's calls of `run`

- **At work** (`AtWork`): a call of `run` has the loop for itself, and remembers a revision iff the
  contender is leader.
- **Order** (`Orderly`): either no call has the loop and the contender is a candidate, or one call
  is at work. Steps keep order whatever the store answers (`Step.orderly`), so turns do
  (`Turn.orderly`), and so does what happens from outside (`Retains.orderly`, `Aside.orderly`).
-/

namespace Tenure.Election

/-- Whether the call has taken the loop and not left it. A call that broke off never leaves it. -/
def Phase.holdsLoop : Phase → Bool
  | .calling _ _ _ | .waiting _ | .broken => true
  | .fresh | .over => false

theorem Phase.holdsLoop_of_inLoop {p : Phase} (h : p.inLoop = true) : p.holdsLoop = true := by
  cases p <;> first | rfl | exact nomatch h

/-- When the wait for the next campaign ends. -/
def Phase.waitsUntil? : Phase → Option Nat
  | .waiting due => some due
  | _ => none

/-- A call in the loop waits for the next campaign if no call on the store is held back. -/
theorem Phase.exists_waiting {p : Phase} (h : p.inLoop = true)
    (hp : ∀ q asked t, p ≠ .calling q asked t) : ∃ t, p = .waiting t := by
  cases p with
  | calling q asked t => exact absurd rfl (hp q asked t)
  | waiting t => exact ⟨t, rfl⟩
  | _ => exact nomatch h

/-- A wait keeps the loop, also if it breaks off. -/
theorem Wait.holdsLoop_phase (wait : Wait) (now : Nat) (interval : Duration) (draw : Nat) :
    (wait.phase now interval draw).holdsLoop = true := by
  cases wait with
  | plain => rfl
  | backoff strategy failures =>
    simp only [Wait.phase]
    split <;> rfl

theorem Wait.phase_ne_calling (wait : Wait) (now : Nat) (interval : Duration) (draw : Nat)
    (q : Request) (asked due : Nat) : wait.phase now interval draw ≠ .calling q asked due := by
  cases wait with
  | plain => nofun
  | backoff strategy failures =>
    simp only [Wait.phase]
    split <;> nofun

/-! ## Editing calls -/

namespace Contender

variable {c : Contender} {i j : Nat}

@[simp] theorem getElem?_modifyRun (c : Contender) (i j : Nat) (f : Run → Run) :
    (c.modifyRun i f).runs[j]? = if i = j then c.runs[j]?.map f else c.runs[j]? := by
  simp only [modifyRun, List.getElem?_modify]
  split <;> simp

@[simp] theorem getElem?_setPhase (c : Contender) (i j : Nat) (p : Phase) :
    (c.setPhase i p).runs[j]? =
      if i = j then c.runs[j]?.map fun r => { r with phase := p } else c.runs[j]? :=
  getElem?_modifyRun ..

@[simp] theorem getElem?_leave (c : Contender) (i j : Nat) :
    (c.leave i).runs[j]? =
      if i = j then c.runs[j]?.map fun r => { r with phase := .over } else c.runs[j]? :=
  getElem?_setPhase ..

@[simp] theorem standing_settle (c : Contender) (i : Nat) (e : Conclusion) :
    (c.settle i e).standing = e.standing := by
  simp only [settle]
  split
  · assumption
  · rfl

@[simp] theorem looping_settle (c : Contender) (i : Nat) (e : Conclusion) :
    (c.settle i e).looping = c.looping := by
  simp only [settle]
  split <;> rfl

@[simp] theorem candidacy_settle (c : Contender) (i : Nat) (e : Conclusion) :
    (c.settle i e).candidacy = c.candidacy := by
  simp only [settle]
  split <;> rfl

@[simp] theorem getElem?_settle (c : Contender) (i j : Nat) (e : Conclusion) :
    (c.settle i e).runs[j]? =
      if i = j then c.runs[j]?.map fun r => { r with ledger := e.ledger } else c.runs[j]? := by
  simp only [settle]
  split <;> exact getElem?_modifyRun ..

@[simp] theorem standing_setPhase (c : Contender) (i : Nat) (p : Phase) :
    (c.setPhase i p).standing = c.standing := rfl

@[simp] theorem looping_setPhase (c : Contender) (i : Nat) (p : Phase) :
    (c.setPhase i p).looping = c.looping := rfl

@[simp] theorem candidacy_setPhase (c : Contender) (i : Nat) (p : Phase) :
    (c.setPhase i p).candidacy = c.candidacy := rfl

@[simp] theorem candidacy_leave (c : Contender) (i : Nat) :
    (c.leave i).candidacy = c.candidacy := rfl

@[simp] theorem candidacy_concluded (c : Contender) (i : Nat) (e : Conclusion) (now draw : Nat) :
    (c.concluded i e now draw).candidacy = c.candidacy := by
  simp [concluded]

@[simp] theorem standing_concluded (c : Contender) (i : Nat) (e : Conclusion) (now draw : Nat) :
    (c.concluded i e now draw).standing = e.standing := by
  simp [concluded]

@[simp] theorem looping_concluded (c : Contender) (i : Nat) (e : Conclusion) (now draw : Nat) :
    (c.concluded i e now draw).looping = c.looping := by
  simp [concluded]

@[simp] theorem getElem?_concluded (c : Contender) (i j : Nat) (e : Conclusion) (now draw : Nat) :
    (c.concluded i e now draw).runs[j]? =
      if i = j then c.runs[j]?.map fun r =>
        { r with ledger := e.ledger, phase := e.wait.phase now c.candidacy.interval draw }
      else c.runs[j]? := by
  simp only [concluded, getElem?_setPhase, getElem?_settle]
  split
  · simp only [Option.map_map]
    rfl
  · rfl

theorem exists_run_of_setPhase {p : Phase} {r' : Run} (h : (c.setPhase i p).runs[j]? = some r') :
    ∃ r, c.runs[j]? = some r ∧ r.ledger = r'.ledger ∧ r.cancelled = r'.cancelled ∧
      r.tied = r'.tied := by
  rw [getElem?_setPhase] at h
  split at h
  · obtain ⟨r, hr, rfl⟩ := Option.map_eq_some_iff.1 h
    exact ⟨r, hr, rfl, rfl, rfl⟩
  · exact ⟨r', h, rfl, rfl, rfl⟩

theorem exists_run_of_concluded {e : Conclusion} {now draw : Nat} {r' : Run}
    (h : (c.concluded i e now draw).runs[j]? = some r') :
    ∃ r, c.runs[j]? = some r ∧ r.cancelled = r'.cancelled ∧ r.tied = r'.tied := by
  rw [getElem?_concluded] at h
  split at h
  · obtain ⟨r, hr, rfl⟩ := Option.map_eq_some_iff.1 h
    exact ⟨r, hr, rfl, rfl⟩
  · exact ⟨r', h, rfl, rfl⟩

end Contender

/-! ## At work -/

/-- The `i`-th call of `run` has the loop for itself, and remembers a revision iff the contender is
leader. -/
structure AtWork (c : Contender) (i : Nat) (r : Run) : Prop where
  run : c.runs[i]? = some r
  looping : c.looping = true
  alone : ∀ {j r'}, c.runs[j]? = some r' → r'.phase.holdsLoop = true → j = i
  backed : r.ledger.revision?.isSome = c.standing.isLeader

/-- The call that is held back is the one that the standing and the ledger ask for. -/
def Run.Asking (r : Run) (standing : Standing) : Prop :=
  ∀ {q asked due}, r.phase = .calling q asked due → request? standing r.ledger = some q

/-- Either the loop is free and the contender a candidate, or one call of `run` is at work. -/
inductive Orderly (c : Contender) : Prop
  | resting (free : c.looping = false) (standing : c.standing = .candidate)
      (idle : ∀ {j : Nat} {r : Run}, c.runs[j]? = some r → r.phase.holdsLoop = false)
  | working {i : Nat} {r : Run} (work : AtWork c i r) (holds : r.phase.holdsLoop = true)
      (asking : r.Asking c.standing)

theorem orderly_of_new (y : Candidacy) : Orderly { candidacy := y } :=
  .resting rfl rfl nofun

section

variable {c d : Contender} {i : Nat} {r : Run}

/-- A call that is at work has a call on the store to make. -/
theorem AtWork.request (h : AtWork c i r) : ∃ q, request? c.standing r.ledger = some q := by
  have hb := h.backed
  cases hs : c.standing with
  | candidate => exact ⟨_, rfl⟩
  | leader =>
    rw [hs] at hb
    obtain ⟨revision, hrev⟩ := Option.isSome_iff_exists.1 hb
    exact ⟨.renew revision, by simp [request?, hrev]⟩

/-- A leader has a call of `run` at work. -/
theorem Orderly.atWork_of_leader (h : Orderly c) (hs : c.standing = .leader) :
    ∃ i r, AtWork c i r ∧ r.phase.holdsLoop = true := by
  cases h with
  | resting _ standing _ => exact nomatch hs.symm.trans standing
  | working work holds _ => exact ⟨_, _, work, holds⟩

theorem Run.call?_eq (h : r.Asking c.standing) :
    r.call? c.standing = request? c.standing r.ledger := by
  unfold Run.call?
  split
  · rename_i hph
    exact (h hph).symm
  · rfl

theorem Engages.run (e : Engages c i d r) : d.runs[i]? = some r := by
  cases e with
  | begins run _ _ => simp [Contender.enter, run]
  | goesOn run _ => exact run

/-- A call of `run` that takes the loop stays cancelled or not and tied or not, like all others. -/
theorem Engages.exists_run (e : Engages c i d r) {j : Nat} {r' : Run}
    (h : d.runs[j]? = some r') :
    ∃ r, c.runs[j]? = some r ∧ r.cancelled = r'.cancelled ∧ r.tied = r'.tied := by
  cases e with
  | begins _ _ _ =>
    rw [show (c.enter i).runs = (c.modifyRun i _).runs from rfl,
      Contender.getElem?_modifyRun] at h
    split at h
    · obtain ⟨r₀, hr₀, rfl⟩ := Option.map_eq_some_iff.1 h
      exact ⟨r₀, hr₀, rfl, rfl⟩
    · exact ⟨r', h, rfl, rfl⟩
  | goesOn _ _ => exact ⟨r', h, rfl, rfl⟩

/-- Only one call of `run` is at work that has the loop. -/
theorem AtWork.unique {j : Nat} {r' : Run} (h : AtWork c i r) (h' : AtWork c j r')
    (holds : r.phase.holdsLoop = true) : i = j ∧ r = r' := by
  obtain rfl := h'.alone h.run holds
  exact ⟨rfl, Option.some.inj (h.run.symm.trans h'.run)⟩

/-- A call of `run` that goes on is at work. -/
theorem Engages.atWork (h : Engages c i d r) (hc : Orderly c) :
    AtWork d i r ∧ r.Asking d.standing := by
  cases h with
  | @begins r run phase free =>
    cases hc with
    | resting _ standing idle =>
      refine ⟨⟨?_, rfl, ?_, ?_⟩, ?_⟩
      · simp [Contender.enter, run]
      · intro j r' hr' hholds
        refine Decidable.byContradiction fun hij => ?_
        have hr' : c.runs[j]? = some r' := by
          simpa [Contender.enter, Ne.symm hij] using hr'
        rw [idle hr'] at hholds
        exact nomatch hholds
      · show Option.isSome none = c.standing.isLeader
        rw [standing]
        rfl
      · intro q asked due hph
        rw [phase] at hph
        exact nomatch hph
    | working work _ _ => exact absurd work.looping (by simp [free])
  | goesOn run phase =>
    have hholds := Phase.holdsLoop_of_inLoop phase
    cases hc with
    | resting _ _ idle =>
      rw [idle run] at hholds
      exact nomatch hholds
    | working work _ asking =>
      obtain rfl := work.alone run hholds
      obtain rfl := Option.some.inj (run.symm.trans work.run)
      exact ⟨work, asking⟩

/-- A contender that is at work never idles. -/
theorem Turn.request?_ne_none (e : Engages c i d r) (hc : Orderly c) :
    request? d.standing r.ledger ≠ none := by
  obtain ⟨q, hq⟩ := (e.atWork hc).1.request
  simp [hq]

/-- A call that is at work goes on at another point or with another ledger. -/
theorem AtWork.edit {d' : Contender} {r' : Run} (h : AtWork d i r)
    (runs : ∀ j, d'.runs[j]? = if i = j then some r' else d.runs[j]?)
    (looping : d'.looping = d.looping)
    (backed : r'.ledger.revision?.isSome = d'.standing.isLeader) : AtWork d' i r' where
  run := by rw [runs, if_pos rfl]
  looping := looping.trans h.looping
  alone {j r''} hr'' hholds := by
    refine Decidable.byContradiction fun hij => ?_
    rw [runs, if_neg (Ne.symm hij)] at hr''
    exact hij (h.alone hr'' hholds)
  backed := backed

theorem AtWork.setPhase (h : AtWork d i r) (p : Phase) :
    AtWork (d.setPhase i p) i { r with phase := p } := by
  refine h.edit (fun j => ?_) rfl h.backed
  rw [Contender.getElem?_setPhase]
  split
  · rename_i hij
    rw [← hij, h.run]
    rfl
  · rfl

/-- A call that finds the loop taken leaves the one at work alone. -/
theorem AtWork.refuse {j : Nat} {r' : Run} (h : AtWork c j r') (holds : r'.phase.holdsLoop = true)
    (run : c.runs[i]? = some r) (phase : r.phase = .fresh) :
    AtWork (c.setPhase i .over) j r' := by
  have hij : i ≠ j := by
    rintro rfl
    obtain rfl := Option.some.inj (run.symm.trans h.run)
    rw [phase] at holds
    exact nomatch holds
  refine ⟨by simp [hij, h.run], h.looping, fun hr'' hholds => ?_, h.backed⟩
  rw [Contender.getElem?_setPhase] at hr''
  split at hr''
  · obtain ⟨r₀, -, rfl⟩ := Option.map_eq_some_iff.1 hr''
    exact nomatch hholds
  · exact h.alone hr'' hholds

/-- If a call is at work, no other one goes on. -/
theorem Engages.eq_of_atWork {j : Nat} {r₀ : Run} (e : Engages c i d r) (h : AtWork c j r₀) :
    d = c ∧ i = j ∧ r = r₀ ∧ r.phase.inLoop = true := by
  cases e with
  | begins _ _ free => exact absurd h.looping (by simp [free])
  | goesOn run phase =>
    obtain rfl := h.alone run (Phase.holdsLoop_of_inLoop phase)
    obtain rfl := Option.some.inj (run.symm.trans h.run)
    exact ⟨rfl, rfl, rfl, phase⟩

/-- The ledger remembers a revision after a campaign iff the store took the write. -/
theorem isSome_revision_after {ledger : Ledger} {before : Standing}
    (h : ledger.revision?.isSome = before.isLeader) (a : Answer) :
    (ledger.after before (some a)).revision?.isSome = (standingAfter (some a)).isLeader := by
  cases before <;> cases a <;> first | rfl | exact h

theorem AtWork.concluded (h : AtWork d i r) (a : Answer) (now draw : Nat) :
    AtWork (d.concluded i (d.conclusion r (some a)) now draw) i
      { r with
        ledger := r.ledger.after d.standing (some a)
        phase := (d.conclusion r (some a)).wait.phase now d.candidacy.interval draw } := by
  refine h.edit (fun j => ?_) (by simp) ?_
  · rw [Contender.getElem?_concluded]
    split
    · rename_i hij
      rw [← hij, h.run]
      rfl
    · rfl
  · simp only [Contender.standing_concluded]
    exact isSome_revision_after h.backed a

end

/-! ## What happens from outside -/

/-- The second contender has the standing of the first one, also for watchers, and its calls of `run`,
tied as before. Some of these may have been cancelled, and there may be new ones. -/
structure Retains (c d : Contender) : Prop where
  standing : d.standing = c.standing
  posted : d.posted = c.posted
  looping : d.looping = c.looping
  run : ∀ {j : Nat} {r : Run}, d.runs[j]? = some r →
    (∃ b, c.runs[j]? = some { r with cancelled := b }) ∨ ∃ b t, r = { cancelled := b, tied := t }
  run' : ∀ {j : Nat} {r : Run}, c.runs[j]? = some r →
    ∃ b, d.runs[j]? = some { r with cancelled := b }

namespace Retains

variable {c d : Contender}

theorem atWork {i : Nat} {r : Run} (h : Retains c d) (hw : AtWork c i r) :
    ∃ b, AtWork d i { r with cancelled := b } := by
  obtain ⟨b, hb⟩ := h.run' hw.run
  refine ⟨b, hb, h.looping.trans hw.looping, fun hr' hholds => ?_, ?_⟩
  · rcases h.run hr' with ⟨b', hr'⟩ | ⟨b', t, rfl⟩
    · exact hw.alone hr' hholds
    · exact nomatch hholds
  · rw [h.standing]
    exact hw.backed

theorem orderly (h : Retains c d) (hc : Orderly c) : Orderly d := by
  cases hc with
  | resting free standing idle =>
    refine .resting (h.looping.trans free) (h.standing.trans standing) fun hr => ?_
    rcases h.run hr with ⟨b, hr⟩ | ⟨b, t, rfl⟩
    · have hidle := idle hr
      exact hidle
    · rfl
  | working work holds asking =>
    obtain ⟨b, hb⟩ := h.atWork work
    exact .working hb holds fun hph => h.standing ▸ asking hph

end Retains

/-- Calls of `run` are cancelled here and there, and nothing else happens to them. -/
def Marks (runs runs' : List Run) : Prop :=
  ∀ j : Nat, ∃ mark : Run → Bool, (∀ r, r.cancelled = true → mark r = true) ∧
    runs'[j]? = runs[j]?.map fun r : Run => { r with cancelled := mark r }

theorem marks_modify (runs : List Run) (i : Nat) {f : Run → Run} (mark : Run → Bool)
    (hf : ∀ r, f r = { r with cancelled := mark r })
    (hmark : ∀ r, r.cancelled = true → mark r = true) : Marks runs (runs.modify i f) := by
  intro j
  rw [List.getElem?_modify]
  by_cases hij : i = j
  · exact ⟨mark, hmark, by simp only [if_pos hij, funext hf, Option.map_eq_map]⟩
  · exact ⟨(·.cancelled), fun _ => id, by simp [if_neg hij]⟩

theorem Contender.marks_cancel (c : Contender) (tied : Bool) :
    Marks c.runs (c.cancel tied).runs := fun j => by
  refine ⟨fun r => r.cancelled || decide (r.tied = tied), fun r h => by simp [h], ?_⟩
  simp only [Contender.cancel, List.getElem?_map]
  congr 1
  funext r
  split <;> simp [*]

theorem Contender.marks_cancelRun (c : Contender) (i : Nat) : Marks c.runs (c.cancelRun i).runs := by
  refine marks_modify c.runs i (fun r => r.cancelled || !r.tied) (fun r => ?_)
    fun r h => by simp [h]
  cases r with
  | mk phase ledger cancelled tied => cases tied <;> simp

namespace Marks

variable {runs runs' : List Run} {j : Nat} {r : Run}

theorem run (h : Marks runs runs') (hr : runs'[j]? = some r) :
    ∃ b, runs[j]? = some { r with cancelled := b } := by
  obtain ⟨mark, -, hj⟩ := h j
  obtain ⟨r₀, hr₀, rfl⟩ := Option.map_eq_some_iff.1 (hj.symm.trans hr)
  exact ⟨r₀.cancelled, hr₀⟩

theorem run' (h : Marks runs runs') (hr : runs[j]? = some r) :
    ∃ b, runs'[j]? = some { r with cancelled := b } := by
  obtain ⟨mark, -, hj⟩ := h j
  exact ⟨mark r, by rw [hj, hr]; rfl⟩

/-- A call of `run` that is cancelled already stays as it is. -/
theorem run_of_cancelled (h : Marks runs runs') (hr : runs[j]? = some r)
    (cancelled : r.cancelled = true) : runs'[j]? = some r := by
  obtain ⟨mark, keeps, hj⟩ := h j
  rw [hj, hr, Option.map_some, keeps r cancelled, ← cancelled]

end Marks

/-- A call of `run` that is new but for being cancelled or not is new. -/
theorem Run.exists_eq_new {r : Run} {b : Bool}
    (h : ∃ b' t, { r with cancelled := b } = ({ cancelled := b', tied := t } : Run)) :
    ∃ b t, r = { cancelled := b, tied := t } := by
  obtain ⟨b', t, h⟩ := h
  cases r
  cases h
  exact ⟨_, _, rfl⟩

/-- Cancelling a call of `run` does no more. -/
theorem retains_modifyRun_cancelled (c : Contender) (i : Nat) :
    Retains c (c.modifyRun i fun r => { r with cancelled := true }) :=
  have marks := marks_modify c.runs i (fun _ => true) (fun _ => rfl) fun _ _ => rfl
  ⟨rfl, rfl, rfl, fun hr => .inl (marks.run hr), marks.run'⟩

/-- What may happen to a contender other than turns of its calls of `run`. -/
inductive Aside (c : Contender) : Contender → Prop
  | refl : Aside c c
  | look {d : Contender} (h : Aside c d) : Aside c d.look
  | cancel {d : Contender} (h : Aside c d) (tied : Bool) : Aside c (d.cancel tied)
  | cancelRun {d : Contender} (h : Aside c d) (i : Nat) : Aside c (d.cancelRun i)
  | start {d : Contender} (h : Aside c d) (cancelled tied : Bool) : Aside c (d.start cancelled tied)

namespace Aside

variable {c d : Contender}

theorem trans {e : Contender} (h : Aside c d) (h' : Aside d e) : Aside c e := by
  induction h' with
  | refl => exact h
  | look _ ih => exact ih.look
  | cancel _ t ih => exact ih.cancel t
  | cancelRun _ i ih => exact ih.cancelRun i
  | start _ b t ih => exact ih.start b t

theorem candidacy (h : Aside c d) : d.candidacy = c.candidacy := by
  induction h with
  | refl => rfl
  | look _ ih | cancel _ _ ih | cancelRun _ _ ih | start _ _ _ ih => exact ih

theorem standing (h : Aside c d) : d.standing = c.standing := by
  induction h with
  | refl => rfl
  | look _ ih | cancel _ _ ih | cancelRun _ _ ih | start _ _ _ ih => exact ih

theorem looping (h : Aside c d) : d.looping = c.looping := by
  induction h with
  | refl => rfl
  | look _ ih | cancel _ _ ih | cancelRun _ _ ih | start _ _ _ ih => exact ih

/-- A call of `run` was there before and at most cancelled, or is new. -/
theorem run {j : Nat} {r : Run} (h : Aside c d) (hr : d.runs[j]? = some r) :
    (∃ b, c.runs[j]? = some { r with cancelled := b }) ∨
      ∃ b t, r = { cancelled := b, tied := t } := by
  induction h generalizing r with
  | refl => exact .inl ⟨_, hr⟩
  | look _ ih => exact ih hr
  | @cancel d _ t ih =>
    obtain ⟨b, hb⟩ := (d.marks_cancel t).run hr
    exact (ih hb).imp_right Run.exists_eq_new
  | @cancelRun d _ i ih =>
    obtain ⟨b, hb⟩ := (d.marks_cancelRun i).run hr
    exact (ih hb).imp_right Run.exists_eq_new
  | start _ b t ih =>
    simp only [Contender.start, List.getElem?_append] at hr
    split at hr
    · exact ih hr
    · rw [List.getElem?_singleton] at hr
      split at hr
      · exact .inr ⟨b, t, (Option.some.inj hr).symm⟩
      · exact nomatch hr

/-- No call of `run` disappears. -/
theorem run' {j : Nat} {r : Run} (h : Aside c d) (hr : c.runs[j]? = some r) :
    ∃ b, d.runs[j]? = some { r with cancelled := b } := by
  induction h with
  | refl => exact ⟨_, hr⟩
  | look _ ih => exact ih
  | @cancel d _ t ih =>
    obtain ⟨b, hb⟩ := ih
    obtain ⟨b', hb'⟩ := (d.marks_cancel t).run' hb
    exact ⟨b', hb'⟩
  | @cancelRun d _ i ih =>
    obtain ⟨b, hb⟩ := ih
    obtain ⟨b', hb'⟩ := (d.marks_cancelRun i).run' hb
    exact ⟨b', hb'⟩
  | start _ b t ih =>
    obtain ⟨b', hb'⟩ := ih
    refine ⟨b', ?_⟩
    simp only [Contender.start]
    rw [List.getElem?_append_left (List.getElem?_eq_some_iff.1 hb').1, hb']

theorem posted (h : Aside c d) : d.posted = c.posted := by
  induction h with
  | refl => rfl
  | look _ ih | cancel _ _ ih | cancelRun _ _ ih | start _ _ _ ih => exact ih

theorem retains (h : Aside c d) : Retains c d :=
  ⟨h.standing, h.posted, h.looping, h.run, h.run'⟩

theorem atWork {i : Nat} {r : Run} (h : Aside c d) (hw : AtWork c i r) :
    ∃ b, AtWork d i { r with cancelled := b } := h.retains.atWork hw

theorem orderly (h : Aside c d) (hc : Orderly c) : Orderly d := h.retains.orderly hc

end Aside

/-! ## Steps -/

namespace Step

variable {c d : Contender} {i j : Nat} {reply? : Option Answer} {notes : List Note} {r : Run}

theorem orderly (t : Step c i reply? d notes) (hc : Orderly c) : Orderly d := by
  cases t with
  | still => exact hc
  | @refused r run phase taken =>
    cases hc with
    | resting free _ _ => exact absurd taken (by simp [free])
    | @working j r' work holds asking =>
      exact .working (work.refuse holds run phase) holds asking
  | left e _ =>
    obtain ⟨work, -⟩ := e.atWork hc
    refine .resting rfl rfl fun {j r'} hr' => ?_
    rw [Contender.getElem?_leave] at hr'
    split at hr'
    · obtain ⟨r₀, -, rfl⟩ := Option.map_eq_some_iff.1 hr'
      rfl
    · rename_i hij
      exact Bool.eq_false_iff.2 fun hholds => hij (work.alone hr' hholds).symm
  | asks e _ _ request =>
    obtain ⟨work, -⟩ := e.atWork hc
    refine .working (work.setPhase _) rfl fun hph => ?_
    cases hph
    exact request
  | acts e _ _ _ =>
    obtain ⟨work, -⟩ := e.atWork hc
    exact .working (work.concluded ..) (Wait.holdsLoop_phase ..) fun hph =>
      (Wait.phase_ne_calling _ _ _ _ _ _ _ hph).elim
  | breaks e _ _ =>
    obtain ⟨work, -⟩ := e.atWork hc
    exact .working (work.setPhase _) rfl nofun
  | idles e _ _ request => exact absurd request (Turn.request?_ne_none e hc)

/-- A step leaves the other calls of `run` alone. -/
theorem run_of_ne (t : Step c i reply? d notes) (h : i ≠ j) : d.runs[j]? = c.runs[j]? := by
  have engages {d : Contender} {r : Run} (e : Engages c i d r) : d.runs[j]? = c.runs[j]? := by
    cases e with
    | begins => exact (Contender.getElem?_modifyRun ..).trans (if_neg h)
    | goesOn => rfl
  cases t with
  | still => rfl
  | refused => simp [h]
  | left e => simpa [h] using engages e
  | asks e | acts e | breaks e | idles e => simpa [h] using engages e

/-- A step of another call of `run` leaves the standing to the call that has the loop. -/
theorem standing_of_ne (t : Step c i reply? d notes) (h : i ≠ j) (hc : Orderly c)
    (run : c.runs[j]? = some r) (holds : r.phase.holdsLoop = true) : d.standing = c.standing := by
  have engages {d : Contender} {r' : Run} (e : Engages c i d r') : False := by
    cases hc with
    | resting _ _ idle => simp [idle run] at holds
    | working work _ _ =>
      obtain rfl := work.alone run holds
      obtain ⟨-, rfl, -⟩ := e.eq_of_atWork work
      exact h rfl
  cases t with
  | still | refused => rfl
  | left e | asks e | acts e | breaks e | idles e => exact (engages e).elim

end Step

/-! ## Turns -/

namespace Turn

variable {now delay draw : Nat} {c : Contender} {s : Lease.Store} {i : Nat} {o : Outcome}

theorem candidacy (t : Turn now delay draw c s i o) : o.contender.candidacy = c.candidacy := by
  cases t with
  | still | refused => rfl
  | left e | asks e | acts e | breaks e | idles e => simpa using e.candidacy

/-- Calls of `run` are not cancelled in turns, and stay tied or not. -/
theorem exists_run (t : Turn now delay draw c s i o) {j : Nat} {r' : Run}
    (h : o.contender.runs[j]? = some r') :
    ∃ r, c.runs[j]? = some r ∧ r.cancelled = r'.cancelled ∧ r.tied = r'.tied := by
  cases t with
  | still => exact ⟨r', h, rfl, rfl⟩
  | refused =>
    obtain ⟨r, hr, -, same⟩ := Contender.exists_run_of_setPhase h
    exact ⟨r, hr, same⟩
  | left e _ | asks e _ _ _ _ _ | breaks e _ _ _ _ =>
    obtain ⟨r, hr, -, hcan, htied⟩ := Contender.exists_run_of_setPhase h
    rw [← hcan, ← htied]
    exact e.exists_run hr
  | acts e _ _ _ _ _ | idles e _ _ _ _ =>
    obtain ⟨r, hr, hcan, htied⟩ := Contender.exists_run_of_concluded h
    rw [← hcan, ← htied]
    exact e.exists_run hr

/-- A turn leaves the other calls of `run` alone. -/
theorem run_of_ne (t : Turn now delay draw c s i o) {j : Nat} (h : i ≠ j) :
    o.contender.runs[j]? = c.runs[j]? := by
  obtain ⟨_, step, -⟩ := t.step
  exact step.run_of_ne h

/-- No call of `run` disappears. -/
theorem exists_run' (t : Turn now delay draw c s i o) {j : Nat} {r : Run}
    (run : c.runs[j]? = some r) :
    ∃ r', o.contender.runs[j]? = some r' ∧ r'.cancelled = r.cancelled ∧ r'.tied = r.tied := by
  obtain ⟨r', run'⟩ : ∃ r', o.contender.runs[j]? = some r' := by
    by_cases h : i = j
    · subst h
      cases t with
      | still => exact ⟨r, run⟩
      | refused run => exact Option.isSome_iff_exists.1 (by simp [run])
      | left e | asks e | acts e | breaks e | idles e =>
        exact Option.isSome_iff_exists.1 (by simp [e.run])
    · exact ⟨r, (t.run_of_ne h).trans run⟩
  obtain ⟨r₀, run₀, cancelled, tied⟩ := t.exists_run run'
  obtain rfl := Option.some.inj (run.symm.trans run₀)
  exact ⟨r', run', cancelled.symm, tied.symm⟩

theorem orderly (t : Turn now delay draw c s i o) (hc : Orderly c) : Orderly o.contender := by
  obtain ⟨_, step, -⟩ := t.step
  exact step.orderly hc

end Turn

end Tenure.Election
