/-!
# Finite tables

A table maps keys to values and remembers the order in which its keys first came in. No key has
two rows, so a table is determined by its rows and its look-up agrees with them.

* `get?_insert`, `get?_modify`, `get?_erase`: what each operation does to look-up.
* `mem_toList_iff`: a row is in the table iff look-up finds it.
-/

namespace Tenure

/-- Rows `(key, value)` with distinct keys, in order of first insertion. -/
structure Table (κ α : Type) where
  /-- The rows, oldest key first. -/
  toList : List (κ × α)
  /-- No key has two rows. -/
  nodup : (toList.map Prod.fst).Nodup := by exact List.nodup_nil

namespace Table

variable {κ α β : Type}

/-- The table without rows. -/
def empty : Table κ α := ⟨[], List.nodup_nil⟩

instance : Inhabited (Table κ α) := ⟨empty⟩

@[ext] theorem ext {t u : Table κ α} (h : t.toList = u.toList) : t = u := by
  cases t
  cases u
  cases h
  rfl

/-- The keys, oldest first. -/
def keys (t : Table κ α) : List κ := t.toList.map Prod.fst

section Rows

variable [DecidableEq κ]

/-- Look-up in a list of rows: the first row of the key. -/
def find? (k : κ) : List (κ × α) → Option α
  | [] => none
  | (k', v) :: rows => if k' = k then some v else find? k rows

/-- Writes a row in place, or at the end when the key is new. -/
def put (k : κ) (v : α) : List (κ × α) → List (κ × α)
  | [] => [(k, v)]
  | (k', v') :: rows => if k' = k then (k, v) :: rows else (k', v') :: put k v rows

theorem find?_eq_none {k : κ} {rows : List (κ × α)} :
    find? k rows = none ↔ k ∉ rows.map Prod.fst := by
  induction rows with
  | nil => simp [find?]
  | cons r rows ih =>
    by_cases h : r.1 = k
    · simp [find?, h]
    · simp [find?, h, ih, Ne.symm h]

theorem mem_of_find? {k : κ} {v : α} {rows : List (κ × α)} (h : find? k rows = some v) :
    (k, v) ∈ rows := by
  induction rows with
  | nil => simp [find?] at h
  | cons r rows ih =>
    by_cases hk : r.1 = k
    · simp only [find?, hk, if_true, Option.some.injEq] at h
      subst h hk; simp
    · simp only [find?, hk, if_false] at h
      exact List.mem_cons_of_mem _ (ih h)

theorem find?_of_mem {k : κ} {v : α} {rows : List (κ × α)} (hn : (rows.map Prod.fst).Nodup)
    (h : (k, v) ∈ rows) : find? k rows = some v := by
  induction rows with
  | nil => simp at h
  | cons r rows ih =>
    simp only [List.map_cons, List.nodup_cons] at hn
    rcases List.mem_cons.1 h with rfl | h
    · simp [find?]
    · have hk : r.1 ≠ k := fun e => hn.1 (e ▸ List.mem_map_of_mem (f := Prod.fst) h)
      simp only [find?, hk, if_false]
      exact ih hn.2 h

theorem find?_put (k j : κ) (v : α) (rows : List (κ × α)) :
    find? j (put k v rows) = if k = j then some v else find? j rows := by
  induction rows with
  | nil => simp [put, find?]
  | cons r rows ih =>
    by_cases h : r.1 = k <;> by_cases hj : k = j <;> simp_all [put, find?]

theorem put_put (k : κ) (u v : α) (rows : List (κ × α)) : put k v (put k u rows) = put k v rows := by
  induction rows with
  | nil => simp [put]
  | cons r rows ih => by_cases h : r.1 = k <;> simp [put, h, ih]

theorem put_of_find? {k : κ} {v : α} {rows : List (κ × α)} (found : find? k rows = some v) :
    put k v rows = rows := by
  induction rows with
  | nil => cases found
  | cons r rows ih =>
    by_cases h : r.1 = k
    · rw [find?, if_pos h] at found
      cases found
      rw [put, if_pos h, ← h]
    · rw [find?, if_neg h] at found
      rw [put, if_neg h, ih found]

/-- A row that is there is written in place. -/
theorem put_comm {k j : κ} {x : α} (u v : α) {rows : List (κ × α)} (other : k ≠ j)
    (found : find? k rows = some x) : put j v (put k u rows) = put k u (put j v rows) := by
  induction rows with
  | nil => cases found
  | cons r rows ih =>
    by_cases hk : r.1 = k
    · subst hk
      simp [put, other]
    · rw [find?, if_neg hk] at found
      by_cases hj : r.1 = j
      · subst hj
        simp [put, Ne.symm other]
      · simp [put, hk, hj, ih found]

theorem map_fst_put (k : κ) (v : α) (rows : List (κ × α)) :
    (put k v rows).map Prod.fst =
      if k ∈ rows.map Prod.fst then rows.map Prod.fst else rows.map Prod.fst ++ [k] := by
  induction rows with
  | nil => simp [put]
  | cons r rows ih =>
    by_cases h : r.1 = k
    · simp [put, h]
    · simp only [put, h, if_false, List.map_cons, ih, List.mem_cons, Ne.symm h, false_or]
      split <;> simp

end Rows

variable [DecidableEq κ]

/-- The value under a key. -/
def get? (t : Table κ α) (k : κ) : Option α := find? k t.toList

/-- The value under a key, or a default. -/
def getD (t : Table κ α) (k : κ) (d : α) : α := (t.get? k).getD d

/-- Whether the key has a row. -/
def contains (t : Table κ α) (k : κ) : Bool := (t.get? k).isSome

/-- Writes a row: in place when the key has one, else last. -/
def insert (t : Table κ α) (k : κ) (v : α) : Table κ α where
  toList := put k v t.toList
  nodup := by
    rw [map_fst_put]
    split
    · exact t.nodup
    · rename_i h
      rw [List.nodup_append]
      refine ⟨t.nodup, by simp, ?_⟩
      rintro a ha b hb rfl
      rw [List.mem_singleton] at hb
      exact h (hb ▸ ha)

/-- Removes the row of a key. -/
def erase (t : Table κ α) (k : κ) : Table κ α where
  toList := t.toList.filter (fun r => r.1 ≠ k)
  nodup := t.nodup.sublist (List.filter_sublist.map _)

/-- Applies `f` to the value under `k`, if there is one. -/
def modify (t : Table κ α) (k : κ) (f : α → α) : Table κ α where
  toList := t.toList.map fun r => if r.1 = k then (r.1, f r.2) else r
  nodup := by
    have : (t.toList.map fun r => if r.1 = k then (r.1, f r.2) else r).map Prod.fst =
        t.toList.map Prod.fst := by
      rw [List.map_map]
      apply List.map_congr_left
      intro r _
      by_cases h : r.1 = k <;> simp [h]
    rw [this]; exact t.nodup

/-- Writes the rows of a list one after another, so the last row of a key wins. -/
def insertMany (t : Table κ α) (rows : List (κ × α)) : Table κ α :=
  rows.foldl (fun t r => t.insert r.1 r.2) t

/-- The table of a list of rows. -/
def ofList (rows : List (κ × α)) : Table κ α := empty.insertMany rows

@[simp] theorem get?_empty (k : κ) : (empty : Table κ α).get? k = none := rfl

theorem get?_insert (t : Table κ α) (k j : κ) (v : α) :
    (t.insert k v).get? j = if k = j then some v else t.get? j :=
  find?_put k j v t.toList

@[simp] theorem get?_insert_self (t : Table κ α) (k : κ) (v : α) :
    (t.insert k v).get? k = some v := by
  simp [get?_insert]

theorem get?_insert_of_ne (t : Table κ α) {k j : κ} (v : α) (h : k ≠ j) :
    (t.insert k v).get? j = t.get? j := by
  simp [get?_insert, h]

theorem insert_insert (t : Table κ α) (k : κ) (u v : α) : (t.insert k u).insert k v = t.insert k v :=
  Table.ext (put_put k u v t.toList)

theorem insert_of_get? (t : Table κ α) {k : κ} {v : α} (found : t.get? k = some v) : t.insert k v = t :=
  Table.ext (put_of_find? found)

theorem insert_comm (t : Table κ α) {k j : κ} {x : α} (u v : α) (other : k ≠ j)
    (found : t.get? k = some x) : (t.insert k u).insert j v = (t.insert j v).insert k u :=
  Table.ext (put_comm u v other found)

theorem get?_modify (t : Table κ α) (k j : κ) (f : α → α) :
    (t.modify k f).get? j = if k = j then (t.get? j).map f else t.get? j := by
  unfold get? modify
  simp only
  induction t.toList with
  | nil => simp [find?]
  | cons r rows ih =>
    by_cases h : r.1 = k <;> by_cases hj : k = j <;> by_cases hr : r.1 = j <;>
      simp_all [find?]

/-- Edits that do the same to the row of a key do the same to the table. -/
theorem modify_congr (t : Table κ α) {k : κ} {f g : α → α} (h : ∀ v, t.get? k = some v → f v = g v) :
    t.modify k f = t.modify k g := by
  apply Table.ext
  apply List.map_congr_left
  rintro ⟨j, v⟩ row
  by_cases hj : j = k
  · subst j
    simp [h v (find?_of_mem t.nodup row)]
  · simp [hj]

/-- Two edits of a row are one. -/
theorem modify_modify (t : Table κ α) (k : κ) (f g : α → α) :
    (t.modify k f).modify k g = t.modify k fun v => g (f v) := by
  apply Table.ext
  show List.map _ (List.map _ _) = List.map _ _
  rw [List.map_map]
  apply List.map_congr_left
  intro r _
  by_cases h : r.1 = k <;> simp [h]

theorem contains_modify (t : Table κ α) (k j : κ) (f : α → α) :
    (t.modify k f).contains j = t.contains j := by
  unfold contains
  rw [get?_modify]
  split
  · exact Option.isSome_map
  · rfl

/-- Editing a row and writing another one commute. -/
theorem insert_modify (t : Table κ α) {k j : κ} (f : α → α) (v : α) (h : k ≠ j) :
    (t.modify j f).insert k v = (t.insert k v).modify j f := by
  apply Table.ext
  show put k v (t.toList.map _) = (put k v t.toList).map _
  generalize t.toList = rows
  induction rows with
  | nil => simp [put, h]
  | cons r rows ih =>
    rw [List.map_cons]
    by_cases hj : r.1 = j
    · subst hj
      simp [put, Ne.symm h, ih]
    · by_cases hk : r.1 = k <;> simp [put, hj, hk, ih, h]

theorem get?_erase (t : Table κ α) (k j : κ) :
    (t.erase k).get? j = if k = j then none else t.get? j := by
  unfold get? erase
  simp only
  induction t.toList with
  | nil => simp [find?]
  | cons r rows ih =>
    by_cases h : r.1 = k <;> by_cases hj : k = j <;> by_cases hr : r.1 = j <;>
      simp_all [find?]

/-- A row is in the table iff look-up finds it. -/
theorem mem_toList_iff (t : Table κ α) (k : κ) (v : α) :
    (k, v) ∈ t.toList ↔ t.get? k = some v :=
  ⟨find?_of_mem t.nodup, mem_of_find?⟩

/-- Writing many rows: the last row of a key wins, and other keys keep theirs. -/
theorem get?_insertMany (t : Table κ α) (rows : List (κ × α)) (j : κ) :
    (t.insertMany rows).get? j = (find? j rows.reverse).or (t.get? j) := by
  induction rows generalizing t with
  | nil => simp [insertMany, find?]
  | cons r rows ih =>
    have hf : ∀ l : List (κ × α), find? j (l ++ [r]) = (find? j l).or (find? j [r]) := by
      intro l
      induction l with
      | nil => simp [find?]
      | cons q l ihl => by_cases hq : q.1 = j <;> simp_all [find?]
    show ((t.insert r.1 r.2).insertMany rows).get? j = _
    rw [ih, List.reverse_cons, hf, get?_insert]
    by_cases h : r.1 = j <;> cases find? j rows.reverse <;> simp [find?, h]

end Table

end Tenure
