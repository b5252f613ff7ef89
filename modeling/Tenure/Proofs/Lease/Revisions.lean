import Tenure.Proofs.Lease.Sessions

/-!
# Revisions are never reused

- **Numbers** (`Numbered`): no row is ahead of the last revision given out, and no two keys have
  rows of the same revision.
- **Holding** (`Session.Holds`): the record says that a key holds a revision, which a write was
  granted, no end of the lease has undone, and whose lease has not lapsed.
- **Sequences** (`Session.Sequenced`, `sequenced_run`): the revisions of a session are
  `1, 2, 3, …`; a row is replaced iff the key holds the expected revision, and a revision that a
  key does not hold any more is refused ever after. A write that breaks off leaves a gap
  (`skips_overlong`).
-/

namespace Tenure.Lease

/-! ## Numbers -/

/-- The revisions of the rows are among those given out, and differ. -/
structure Numbered (s : Store) : Prop where
  bounded : ∀ {key row}, s.rows.get? key = some row → 1 ≤ row.revision ∧ row.revision ≤ s.issued
  distinct : ∀ {key key' row row'}, s.rows.get? key = some row → s.rows.get? key' = some row' →
    row.revision = row'.revision → key = key'

namespace Numbered

variable {s : Store}

theorem empty : Numbered {} where
  bounded hr := by cases hr
  distinct hr := by cases hr

theorem write (h : Numbered s) (key : String) (value : Bytes) (deadline : Nat) :
    Numbered (s.advance.put key ⟨value, s.issued + 1, deadline⟩) where
  bounded {k row} hr := by
    rw [Store.get?_rows_put] at hr
    simp only [Store.issued_put, Store.issued_advance]
    split at hr
    · obtain rfl := Option.some.inj hr
      exact ⟨Nat.succ_pos _, Nat.le_refl _⟩
    · have := h.bounded hr
      omega
  distinct {k k' row row'} hr hr' hrev := by
    rw [Store.get?_rows_put] at hr hr'
    split at hr <;> split at hr'
    · rename_i hk hk'
      exact hk.symm.trans hk'
    · obtain rfl := Option.some.inj hr
      have := h.bounded hr'
      simp only at hrev
      omega
    · obtain rfl := Option.some.inj hr'
      have := h.bounded hr
      simp only at hrev
      omega
    · exact h.distinct hr hr' hrev

theorem expire (h : Numbered s) (key : String) : Numbered (s.expire key) where
  bounded {k row} hr := by
    rw [Store.get?_rows_expire] at hr
    split at hr
    · cases hr
    · exact h.bounded hr
  distinct {k k' row row'} hr hr' hrev := by
    rw [Store.get?_rows_expire] at hr hr'
    split at hr
    · cases hr
    · split at hr'
      · cases hr'
      · exact h.distinct hr hr' hrev

end Numbered

namespace Session

theorem numbered_make {s : Session} {op : Operation}
    (whole : s.reply op ≠ .refused .beyondClock) (h : Numbered s.store) :
    Numbered (s.make op).store := by
  have hmade := made whole
  generalize ha : s.answer op = a at hmade
  simp only [make, ha]
  cases hmade with
  | created | updated => exact h.write ..
  | ended => exact h.expire _
  | switched => exact ⟨h.bounded, h.distinct⟩
  | _ => exact h

/-! ## Holding -/

/-- By the record of the session, the key holds the revision. -/
def Holds (s : Session) (key : String) (revision : Nat) : Prop :=
  ∃ row, standing? key s.calls = some row ∧ row.revision = revision ∧ s.now < row.deadline

theorem Kept.holds_iff {s : Session} (h : s.Kept) {key : String} {revision : Nat} :
    s.Holds key revision ↔ ∃ row, s.store.live? s.now key = some row ∧ row.revision = revision := by
  simp only [Holds, Store.live?_eq_some_iff, h.rows]
  constructor
  · rintro ⟨row, stands, hrev, hnow⟩
    exact ⟨row, ⟨stands, hnow⟩, hrev⟩
  · rintro ⟨row, ⟨stands, hnow⟩, hrev⟩
    exact ⟨row, stands, hrev, hnow⟩

/-- A revision that was given out and is not that of the live row of a key now is never granted a
renewal of the key again. -/
theorem not_granted_of_not_live {s : Session} {key : String} {expected : Nat}
    (given : expected ≤ s.store.issued)
    (gone : ¬ ∃ row, s.store.live? s.now key = some row ∧ row.revision = expected)
    (ops : List Operation) (value : Bytes) (ttl : Duration) (revision : Nat) :
    (s.run ops).reply (.update key value expected ttl) ≠ .granted revision := by
  intro hgranted
  have hiff := @granted_update_iff (s.run ops) key value expected ttl (by simp [hgranted])
  obtain ⟨-, row, hlive, hrev⟩ := hiff.1 ⟨revision, hgranted⟩
  obtain ⟨hrow, hnow⟩ := Store.live?_eq_some_iff.1 hlive
  -- a row with a revision that was given out before was there before
  have hbefore := (s.later_run ops).row_of_le hrow (hrev ▸ given)
  exact gone ⟨row, Store.live?_eq_some_iff.2
    ⟨hbefore, Nat.lt_of_le_of_lt (s.now_le_run ops) hnow⟩, hrev⟩

/-! ## Sequences -/

/-- What revisions achieve in a session. -/
structure Sequenced (s : Session) : Prop where
  /-- The revisions given out, over all keys in order, are `1, 2, 3, …`. -/
  consecutive : s.granted = List.range' 1 s.granted.length
  /-- No row is ahead of the last revision given out. -/
  bounded : ∀ {key row}, s.store.rows.get? key = some row →
    1 ≤ row.revision ∧ row.revision ≤ s.granted.length
  /-- No two keys have rows of the same revision. -/
  distinct : ∀ {key key' row row'}, s.store.rows.get? key = some row →
    s.store.rows.get? key' = some row' → row.revision = row'.revision → key = key'
  /-- A write that does not break off replaces the row of a key iff the store is available and the
  key holds the expected revision. -/
  compares : ∀ {key value expected ttl},
    s.reply (.update key value expected ttl) ≠ .refused .beyondClock →
    ((∃ revision, s.reply (.update key value expected ttl) = .granted revision) ↔
      s.store.available = true ∧ s.Holds key expected)
  /-- A revision that was given out and that a key does not hold is refused for the key ever
  after. -/
  refuses : ∀ {key expected}, expected ≤ s.granted.length → ¬ s.Holds key expected →
    ∀ ops value ttl revision,
      (s.run ops).reply (.update key value expected ttl) ≠ .granted revision

/-- A session with a store that was empty at first, in which no call breaks off. -/
theorem sequenced_run (now : Nat) (ops : List Operation)
    (whole : (run ⟨now, {}, []⟩ ops).Whole) : (run ⟨now, {}, []⟩ ops).Sequenced := by
  have kept := kept_run now whole
  have numbered : Numbered (run ⟨now, {}, []⟩ ops).store :=
    run_induct (P := fun s => Numbered s.store) whole .empty numbered_make
  have count : (run ⟨now, {}, []⟩ ops).granted.length = (run ⟨now, {}, []⟩ ops).store.issued := by
    rw [kept.granted, List.length_range']
  exact {
    consecutive := by rw [count]; exact kept.granted
    bounded := fun hr => by rw [count]; exact numbered.bounded hr
    distinct := numbered.distinct
    compares := fun first => by rw [kept.holds_iff]; exact granted_update_iff first
    refuses := fun given gone => by
      rw [count] at given
      rw [kept.holds_iff] at gone
      exact not_granted_of_not_live given gone }

theorem thousand_le_limit : 1000 ≤ Duration.limit := by decide

/-- Two keys are written, and the first one is renewed, ended and written again. -/
def rewriting : List Operation :=
  [.create "k" [] .zero, .create "l" [] ⟨1000, thousand_le_limit⟩, .advance 10,
    .create "k" [] ⟨1000, thousand_le_limit⟩, .update "k" [] 3 ⟨1000, thousand_le_limit⟩,
    .expire "k", .update "k" [] 4 .zero, .create "k" [] .zero]

theorem sequenced_rewriting :
    (run ⟨0, {}, []⟩ rewriting).Whole ∧ (run ⟨0, {}, []⟩ rewriting).Sequenced ∧
      (run ⟨0, {}, []⟩ rewriting).granted = [1, 2, 3, 4, 5] :=
  ⟨by decide +kernel, sequenced_run 0 rewriting (by decide +kernel), by decide +kernel⟩

/-- A key is written for longer than the clock runs, and then for a lease that fits. -/
def overlong : List Operation :=
  [.create "k" [] ⟨Duration.limit, Nat.le_refl _⟩, .create "k" [] .zero]

/-- A write that breaks off uses up a revision that nobody is given. -/
theorem skips_overlong :
    (run ⟨0, {}, []⟩ overlong).granted = [2] ∧ ¬ (run ⟨0, {}, []⟩ overlong).Sequenced := by
  have skips : (run ⟨0, {}, []⟩ overlong).granted = [2] := by decide +kernel
  refine ⟨skips, fun h => ?_⟩
  have := h.consecutive
  rw [skips] at this
  exact absurd this (by decide)

end Session

end Tenure.Lease
