import Tenure.Lease.Store

/-!
# What operations do to a store

- **Answers** (`create_cases`, `update_cases`): each write is refused and changes nothing, is taken
  with the next revision, or breaks off because its lease would end beyond the clock's range. The
  rows of other keys stay (`get?_rows_create_of_ne`, `get?_rows_update_of_ne`).
- **Later stores** (`Later`): a store after any operations. Each of its rows was there before or
  has a revision that was given out since, so a revision that is no longer held never returns
  (`Later.row_of_le`).
-/

namespace Tenure

theorem Clock.eq_of_after {now deadline : Nat} {d : Duration}
    (h : Clock.after now d = .ok deadline) : deadline = now + d.nanos := by
  simp only [Clock.after] at h
  split at h
  · exact (Except.ok.inj h).symm
  · cases h

namespace Lease.Store

theorem live?_eq_some_iff {s : Store} {now : Nat} {key : String} {row : Row} :
    s.live? now key = some row ↔ s.rows.get? key = some row ∧ now < row.deadline := by
  simp [live?, Row.isLive, Option.filter_eq_some_iff]

@[simp] theorem get?_rows_put (s : Store) (key k : String) (row : Row) :
    (s.put key row).rows.get? k = if key = k then some row else s.rows.get? k :=
  Table.get?_insert s.rows key k row

@[simp] theorem get?_rows_expire (s : Store) (key k : String) :
    (s.expire key).rows.get? k = if key = k then none else s.rows.get? k :=
  Table.get?_erase s.rows key k

@[simp] theorem issued_put (s : Store) (key : String) (row : Row) :
    (s.put key row).issued = s.issued := rfl

@[simp] theorem rows_advance (s : Store) : s.advance.rows = s.rows := rfl

@[simp] theorem issued_advance (s : Store) : s.advance.issued = s.issued + 1 := rfl

/-! ## Answers -/

/-- A `create` is refused, or there is no live row and it is taken or breaks off. -/
theorem create_cases (s : Store) (now : Nat) (key : String) (value : Bytes) (ttl : Duration) :
    (∃ e, s.create now key value ttl = (s, .error e) ∧ e ≠ .beyondClock) ∨
    (s.live? now key = none ∧ s.create now key value ttl =
      (s.advance.put key ⟨value, s.issued + 1, now + ttl.nanos⟩, .ok (s.issued + 1))) ∨
    (s.live? now key = none ∧ s.create now key value ttl = (s.advance, .error .beyondClock)) := by
  unfold create
  split
  · exact .inl ⟨_, rfl, by simp [offline]⟩
  · cases hl : s.live? now key with
    | some row => exact .inl ⟨_, rfl, by simp⟩
    | none =>
      cases ha : Clock.after now ttl with
      | ok deadline =>
        obtain rfl := Clock.eq_of_after ha
        exact .inr (.inl ⟨rfl, rfl⟩)
      | error o => exact .inr (.inr ⟨rfl, rfl⟩)

/-- An `update` is refused, or the live row has the expected revision and it is taken or breaks
off. -/
theorem update_cases (s : Store) (now : Nat) (key : String) (value : Bytes) (expected : Nat)
    (ttl : Duration) :
    (∃ e, s.update now key value expected ttl = (s, .error e) ∧ e ≠ .beyondClock) ∨
    (∃ row, s.live? now key = some row ∧ row.revision = expected ∧
      s.update now key value expected ttl =
        (s.advance.put key ⟨value, s.issued + 1, now + ttl.nanos⟩, .ok (s.issued + 1))) ∨
    (∃ row, s.live? now key = some row ∧ row.revision = expected ∧
      s.update now key value expected ttl =
        (s.advance.put key ⟨value, s.issued + 1, row.deadline⟩, .error .beyondClock)) := by
  unfold update
  split
  · exact .inl ⟨_, rfl, by simp [offline]⟩
  · cases hr : s.rows.get? key with
    | none => exact .inl ⟨_, rfl, by simp⟩
    | some row =>
      dsimp only
      split
      · exact .inl ⟨_, rfl, by simp⟩
      · rename_i hlive
        have hl : s.live? now key = some row :=
          live?_eq_some_iff.2 ⟨hr, by simpa [Row.isLive] using hlive⟩
        split
        · exact .inl ⟨_, rfl, by simp⟩
        · rename_i hrev
          have hrev : row.revision = expected := Decidable.not_not.1 hrev
          cases ha : Clock.after now ttl with
          | ok deadline =>
            obtain rfl := Clock.eq_of_after ha
            exact .inr (.inl ⟨row, hl, hrev, rfl⟩)
          | error o => exact .inr (.inr ⟨row, hl, hrev, rfl⟩)

theorem get?_rows_create_of_ne (s : Store) (now : Nat) {key k : String} (value : Bytes)
    (ttl : Duration) (h : key ≠ k) :
    (s.create now key value ttl).1.rows.get? k = s.rows.get? k := by
  rcases s.create_cases now key value ttl with ⟨e, hc, -⟩ | ⟨-, hc⟩ | ⟨-, hc⟩ <;> rw [hc]
  · simp [h]
  · rfl

theorem get?_rows_update_of_ne (s : Store) (now : Nat) {key k : String} (value : Bytes)
    (expected : Nat) (ttl : Duration) (h : key ≠ k) :
    (s.update now key value expected ttl).1.rows.get? k = s.rows.get? k := by
  rcases s.update_cases now key value expected ttl with
    ⟨e, hu, -⟩ | ⟨row, -, -, hu⟩ | ⟨row, -, -, hu⟩ <;> rw [hu] <;> simp [h]

/-! ## Later stores -/

/-- A store after further operations: it gave out more revisions, and each of its rows was there
before or carries one of the new revisions. -/
structure Later (s s' : Store) : Prop where
  issued_le : s.issued ≤ s'.issued
  row : ∀ {key row}, s'.rows.get? key = some row →
    s.rows.get? key = some row ∨ (s.issued < row.revision ∧ row.revision ≤ s'.issued)

namespace Later

variable {s s' s'' : Store}

theorem refl (s : Store) : Later s s := ⟨Nat.le_refl _, .inl⟩

theorem trans (h : Later s s') (h' : Later s' s'') : Later s s'' := by
  refine ⟨Nat.le_trans h.issued_le h'.issued_le, fun hr => ?_⟩
  have h1 := h.issued_le
  have h2 := h'.issued_le
  rcases h'.row hr with hr | hr
  · rcases h.row hr with hr | hr
    · exact .inl hr
    · exact .inr (by omega)
  · exact .inr (by omega)

/-- A row with a revision that was given out before was there before, just as it is. -/
theorem row_of_le (h : Later s s') {key : String} {row : Row}
    (hr : s'.rows.get? key = some row) (hle : row.revision ≤ s.issued) :
    s.rows.get? key = some row := by
  rcases h.row hr with hr | ⟨hlt, -⟩
  · exact hr
  · omega

theorem advance (s : Store) : Later s s.advance := ⟨Nat.le_succ _, .inl⟩

theorem write (s : Store) (key : String) (value : Bytes) (deadline : Nat) :
    Later s (s.advance.put key ⟨value, s.issued + 1, deadline⟩) := by
  refine ⟨Nat.le_succ _, fun hr => ?_⟩
  rw [get?_rows_put] at hr
  split at hr
  · cases hr
    exact .inr ⟨Nat.lt_succ_self _, Nat.le_refl _⟩
  · exact .inl hr

theorem expire (s : Store) (key : String) : Later s (s.expire key) := by
  refine ⟨Nat.le_refl _, fun hr => ?_⟩
  rw [get?_rows_expire] at hr
  split at hr
  · cases hr
  · exact .inl hr

theorem setAvailable (s : Store) (available : Bool) : Later s (s.setAvailable available) :=
  ⟨Nat.le_refl _, .inl⟩

theorem create (s : Store) (now : Nat) (key : String) (value : Bytes) (ttl : Duration) :
    Later s (s.create now key value ttl).1 := by
  rcases s.create_cases now key value ttl with ⟨e, h, -⟩ | ⟨-, h⟩ | ⟨-, h⟩ <;> rw [h]
  · exact refl s
  · exact write s key value _
  · exact advance s

theorem update (s : Store) (now : Nat) (key : String) (value : Bytes) (expected : Nat)
    (ttl : Duration) : Later s (s.update now key value expected ttl).1 := by
  rcases s.update_cases now key value expected ttl with
    ⟨e, h, -⟩ | ⟨row, -, -, h⟩ | ⟨row, -, -, h⟩ <;> rw [h]
  · exact refl s
  · exact write s key value _
  · exact write s key value _

end Later

end Lease.Store

end Tenure
