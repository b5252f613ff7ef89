import Mathlib.Data.List.Forall2
import Tenure.Proofs.Duration.Reading
import Tenure.Proofs.Election.Terms

/-!
# Which configurations pass the check

- **Lists** (`forM_eq_ok_iff`, `mapM_eq_ok_iff`): a list is checked, or turned into another one, iff each of
  its elements is.
- **Settings** (`ElectionSettings.Timed`, `timed_iff`): the lease and the campaign interval that the
  settings of an election give, which is below `2⁶⁴` nanoseconds (`nanos_lt_of_campaignPeriod`).
- **Subjects** (`SubjectSettings.Usable`, `checkSubject_eq_ok_iff`, `scheduleOf_eq_ok_iff`).
- **Configurations** (`Config.check_eq_ok_iff`); no check finds a fault in the document (`check_ne_document`).
-/

namespace Tenure

/-! ## Lists -/

section Lists

variable {ε α β : Type} {xs : List α}

theorem bind_eq_ok_iff {x : Except ε α} {f : α → Except ε β} {b : β} :
    (x >>= f) = .ok b ↔ ∃ a, x = .ok a ∧ f a = .ok b := by
  refine ⟨exists_of_bind_ok, ?_⟩
  rintro ⟨a, rfl, h⟩
  exact h

theorem bind_eq_error_iff {x : Except ε α} {f : α → Except ε β} {e : ε} :
    (x >>= f) = .error e ↔ x = .error e ∨ ∃ a, x = .ok a ∧ f a = .error e := by
  cases x with
  | error e' => simp [bind, Except.bind]
  | ok a => simp [bind, Except.bind]

theorem forM_eq_ok_iff {f : α → Except ε Unit} {u : Unit} :
    xs.forM f = .ok u ↔ ∀ x ∈ xs, f x = .ok () := by
  induction xs with
  | nil => simp [List.forM, pure, Except.pure]
  | cons x xs ih =>
    rw [List.forM, bind_eq_ok_iff, List.forall_mem_cons, ← ih]
    constructor
    · rintro ⟨_, hx, hxs⟩
      exact ⟨hx, hxs⟩
    · rintro ⟨hx, hxs⟩
      exact ⟨_, hx, hxs⟩

theorem exists_of_forM_error {f : α → Except ε Unit} {e : ε} (h : xs.forM f = .error e) :
    ∃ x ∈ xs, f x = .error e := by
  induction xs with
  | nil => cases h
  | cons x xs ih =>
    rcases bind_eq_error_iff.1 h with first | ⟨_, -, later⟩
    · exact ⟨x, List.mem_cons_self .., first⟩
    · obtain ⟨y, hy, found⟩ := ih later
      exact ⟨y, List.mem_cons_of_mem _ hy, found⟩

theorem mapM_eq_ok_iff {f : α → Except ε β} {ys : List β} :
    xs.mapM f = .ok ys ↔ List.Forall₂ (fun x y => f x = .ok y) xs ys := by
  induction xs generalizing ys with
  | nil =>
    rw [List.mapM_nil, List.forall₂_nil_left_iff]
    exact ⟨fun h => (Except.ok.inj h).symm, fun h => h ▸ rfl⟩
  | cons x xs ih =>
    rw [List.mapM_cons, bind_eq_ok_iff, List.forall₂_cons_left_iff]
    simp only [bind_eq_ok_iff, ih]
    constructor
    · rintro ⟨y, hx, ys', hxs, same⟩
      exact ⟨y, ys', hx, hxs, (Except.ok.inj same).symm⟩
    · rintro ⟨y, ys', hx, hxs, rfl⟩
      exact ⟨y, hx, ys', hxs, rfl⟩

theorem exists_mapM_ok {f : α → Except ε β} (h : ∀ x ∈ xs, ∃ y, f x = .ok y) :
    ∃ ys, xs.mapM f = .ok ys := by
  induction xs with
  | nil => exact ⟨[], rfl⟩
  | cons x xs ih =>
    obtain ⟨⟨y, hy⟩, rest⟩ := List.forall_mem_cons.1 h
    obtain ⟨ys, hys⟩ := ih rest
    exact ⟨y :: ys, mapM_eq_ok_iff.2 (.cons hy (mapM_eq_ok_iff.1 hys))⟩

/-- What a list is turned into piece by piece has a source for every piece. -/
theorem exists_of_mapM_ok {f : α → Except ε β} {ys : List β} (h : xs.mapM f = .ok ys) {y : β}
    (hy : y ∈ ys) : ∃ x ∈ xs, f x = .ok y := by
  have pairs := mapM_eq_ok_iff.1 h
  clear h
  induction pairs with
  | nil => cases hy
  | @cons x _ _ _ hx _ ih =>
    rcases List.mem_cons.1 hy with rfl | hy
    · exact ⟨x, List.mem_cons_self .., hx⟩
    · obtain ⟨x', hx', hf⟩ := ih hy
      exact ⟨x', List.mem_cons_of_mem _ hx', hf⟩

end Lists

/-! ## Settings -/

namespace ElectionSettings

variable {s : ElectionSettings} {text : String} {d ttl interval : Duration}

/-- The settings give this lease and this campaign interval: the one that is set, or else half the lease,
rounded down. -/
structure Timed (s : ElectionSettings) (ttl interval : Duration) : Prop where
  /-- The lease is as written. -/
  lease : Duration.parse s.ttl = .ok ttl
  /-- So is the interval. -/
  set : ∀ text ∈ s.campaignInterval?, Duration.parse text = .ok interval
  /-- Without one it is half the lease. -/
  unset : s.campaignInterval? = none → interval.nanos = ttl.nanos / 2

theorem read_eq_ok_iff : read text = .ok d ↔ Duration.parse text = .ok d := by
  unfold read
  cases Duration.parse text <;> simp

theorem timed_iff : s.Timed ttl interval ↔ s.lease = .ok ttl ∧ s.campaignPeriod = .ok interval := by
  unfold lease campaignPeriod
  cases h : s.campaignInterval? with
  | some text =>
    rw [read_eq_ok_iff, read_eq_ok_iff]
    constructor
    · exact fun timed => ⟨timed.lease, timed.set text h⟩
    · rintro ⟨lease, set⟩
      refine ⟨lease, fun text' same => ?_, fun unset => ?_⟩
      · cases h.symm.trans same
        exact set
      · cases h.symm.trans unset
  | none =>
    simp only [bind_eq_ok_iff, lease, read_eq_ok_iff]
    constructor
    · intro timed
      refine ⟨timed.lease, ttl, timed.lease, ?_⟩
      exact congrArg _ (Duration.ext (timed.unset h).symm)
    · rintro ⟨lease, ttl', lease', half⟩
      cases lease.symm.trans lease'
      cases Except.ok.inj half
      refine ⟨lease, fun text same => ?_, fun _ => rfl⟩
      cases h.symm.trans same

/-- A campaign interval that can be read keeps below `2⁶⁴` nanoseconds. -/
theorem nanos_lt_of_campaignPeriod (h : s.campaignPeriod = .ok interval) :
    interval.nanos < Duration.parseLimit := by
  unfold campaignPeriod at h
  cases set : s.campaignInterval? with
  | some text =>
    rw [set] at h
    exact Duration.nanos_lt_of_parse (read_eq_ok_iff.1 h)
  | none =>
    rw [set] at h
    obtain ⟨ttl, lease, half⟩ := bind_eq_ok_iff.1 h
    cases Except.ok.inj half
    exact Nat.lt_of_le_of_lt (Nat.div_le_self _ _) (Duration.nanos_lt_of_parse (read_eq_ok_iff.1 lease))

end ElectionSettings

/-! ## Subjects -/

namespace SubjectSettings

variable {s : SubjectSettings} {d : Duration}

/-- Heartbeats can be published on the subject: its name is not blank, and its interval is a duration
that is not zero. -/
structure Usable (s : SubjectSettings) : Prop where
  /-- The name has a character that is not blank. -/
  named : ∃ c ∈ s.name.toList, Text.isBlank c = false
  /-- The interval is a duration, and not zero. -/
  paced : ∃ d, Duration.parse s.interval = .ok d ∧ 0 < d.nanos

theorem isBlank_eq_false_iff : s.isBlank = false ↔ ∃ c ∈ s.name.toList, Text.isBlank c = false := by
  unfold isBlank
  rw [← Bool.not_eq_true, List.isEmpty_iff, Text.trim_eq_nil_iff]
  simp

theorem period_eq_ok_iff : s.period = .ok d ↔ Duration.parse s.interval = .ok d ∧ 0 < d.nanos := by
  unfold period
  cases Duration.parse s.interval with
  | error fault => simp
  | ok d' =>
    simp only
    split
    · rename_i zero
      refine ⟨(fun h => by cases h), ?_⟩
      rintro ⟨same, pos⟩
      cases Except.ok.inj same
      omega
    · rename_i nonzero
      constructor
      · intro h
        cases Except.ok.inj h
        exact ⟨rfl, Nat.pos_of_ne_zero nonzero⟩
      · rintro ⟨same, -⟩
        rw [Except.ok.inj same]

end SubjectSettings

theorem Config.checkSubject_eq_ok_iff {s : SubjectSettings} :
    checkSubject s = .ok ⟨⟩ ↔ s.Usable := by
  have usable : s.Usable ↔ s.isBlank = false ∧ ∃ d, s.period = .ok d := by
    simp only [SubjectSettings.isBlank_eq_false_iff, SubjectSettings.period_eq_ok_iff]
    exact ⟨fun h => ⟨h.named, h.paced⟩, fun h => ⟨h.1, h.2⟩⟩
  rw [usable, checkSubject]
  cases s.isBlank <;> cases s.period <;> simp

/-- A schedule has the name and the interval of its subject, and its headers over the global ones. -/
theorem Publisher.scheduleOf_eq_ok_iff {global : Headers} {s : SubjectSettings} {schedule : Schedule} :
    scheduleOf global s = .ok schedule ↔ schedule.subject = s.name ∧
      s.period = .ok schedule.interval ∧ schedule.headers = Headers.merge global s.headers := by
  unfold scheduleOf
  rw [bind_eq_ok_iff]
  constructor
  · rintro ⟨d, period, same⟩
    cases Except.ok.inj same
    exact ⟨rfl, period, rfl⟩
  · rintro ⟨name, period, headers⟩
    refine ⟨schedule.interval, period, ?_⟩
    rw [← name, ← headers]
    rfl

/-! ## Configurations -/

namespace Config

variable {c : Config}

theorem checkElection_eq_ok_iff :
    c.checkElection = .ok ⟨⟩ ↔ (c.leaderElection = true → ∃ ttl interval, c.election.Timed ttl interval) := by
  unfold checkElection
  cases c.leaderElection with
  | false => simp
  | true =>
    simp only [ElectionSettings.timed_iff, if_true, bind_eq_ok_iff, forall_const]
    constructor
    · rintro ⟨ttl, lease, interval, period, -⟩
      exact ⟨ttl, interval, lease, period⟩
    · rintro ⟨ttl, interval, lease, period⟩
      exact ⟨ttl, lease, interval, period, rfl⟩

theorem check_eq_ok_iff :
    c.check = .ok ⟨⟩ ↔ c.subjects ≠ [] ∧ (∀ s ∈ c.subjects, s.Usable) ∧
      (c.leaderElection = true → ∃ ttl interval, c.election.Timed ttl interval) := by
  unfold check
  cases h : c.subjects with
  | nil => simp
  | cons s ss =>
    simp only [List.isEmpty_cons, Bool.false_eq_true, if_false, bind_eq_ok_iff, forM_eq_ok_iff,
      checkSubject_eq_ok_iff, checkElection_eq_ok_iff]
    simp

/-! ## Faults -/

theorem checkSubject_ne_document (s : SubjectSettings) (fault : DocumentFault) :
    checkSubject s ≠ .error (.document fault) := by
  unfold checkSubject SubjectSettings.period
  grind

theorem checkElection_ne_document (c : Config) (fault : DocumentFault) :
    c.checkElection ≠ .error (.document fault) := by
  have read (text : String) : ElectionSettings.read text ≠ .error (.document fault) := by
    unfold ElectionSettings.read
    grind
  intro h
  unfold checkElection at h
  split at h
  · rcases bind_eq_error_iff.1 h with lease | ⟨_, -, h⟩
    · exact read _ lease
    · rcases bind_eq_error_iff.1 h with period | ⟨_, -, h⟩
      · unfold ElectionSettings.campaignPeriod at period
        split at period
        · exact read _ period
        · rcases bind_eq_error_iff.1 period with lease | ⟨_, -, half⟩
          · exact read _ lease
          · cases half
      · cases h
  · cases h

/-- No check finds a fault in the document. -/
theorem check_ne_document (c : Config) (fault : DocumentFault) : c.check ≠ .error (.document fault) := by
  intro h
  unfold check at h
  split at h
  · cases h
  · rcases bind_eq_error_iff.1 h with subject | ⟨_, -, election⟩
    · obtain ⟨s, -, found⟩ := exists_of_forM_error subject
      exact checkSubject_ne_document s fault found
    · exact checkElection_ne_document c fault election

end Config

end Tenure
