import Tenure.Table

/-!
# Relations between options, results, lists and tables

- **Options** (`Option.Rel`): what is in two options is related, or nothing is in either.
- **Results** (`Together`): what comes out of two computations is related, or both fail.
- **One place** (`Once`, `Half`): two lists that differ in one element, two pairs of which one half differs.
  Look-up in two tables of rows finds the difference, or the tables differ elsewhere (`Once.find?_put`).
-/

namespace Tenure

/-- The same, or related. -/
def Within {α : Type} (R : α → α → Prop) (x y : α) : Prop := x = y ∨ R x y

theorem Within.map {α β : Type} {R : α → α → Prop} {S : β → β → Prop} {x y : α} (f : α → β) (h : Within R x y)
    (hf : R x y → S (f x) (f y)) : Within S (f x) (f y) :=
  h.imp (congrArg f) hf

/-! ## Options -/

section Options

variable {α β : Type} {r : α → α → Prop} {s : β → β → Prop} {x y z : Option α}

theorem rel_refl (hr : ∀ a, r a a) (x : Option α) : Option.Rel r x x := by
  cases x with
  | none => exact .none
  | some a => exact .some (hr a)

theorem rel_trans (hr : ∀ {a b c}, r a b → r b c → r a c) (h : Option.Rel r x y)
    (h' : Option.Rel r y z) : Option.Rel r x z := by
  cases h with
  | none => exact h'
  | some h =>
    cases h' with
    | some h' => exact .some (hr h h')

/-- A row of a table is edited. -/
theorem rel_modify {f : α → α} (hr : ∀ a, r a a) (hf : ∀ a, r a (f a)) (p : Prop) [Decidable p]
    (x : Option α) : Option.Rel r x (if p then x.map f else x) := by
  split
  · cases x with
    | none => exact .none
    | some a => exact .some (hf a)
  · exact rel_refl hr x

/-- A row is edited in two tables at once. -/
theorem rel_map {f g : α → α} (hr : ∀ {a b}, r a b → r (f a) (g b)) (p : Prop) [Decidable p]
    (h : Option.Rel r x y) :
    Option.Rel r (if p then x.map f else x) (if p then y.map g else y) := by
  split
  · cases h with
    | none => exact .none
    | some h => exact .some (hr h)
  · exact h

/-- Both sides of a relation take a step. -/
theorem rel_both {s : α → α → Prop} {x' y' : Option α}
    (hr : ∀ {a b a' b'}, r a b → s a a' → s b b' → r a' b') (h : Option.Rel r x y)
    (hx : Option.Rel s x x') (hy : Option.Rel s y y') : Option.Rel r x' y' := by
  cases h with
  | none =>
    cases hx with
    | none =>
      cases hy with
      | none => exact .none
  | some h =>
    cases hx with
    | some hx =>
      cases hy with
      | some hy => exact .some (hr h hx hy)

/-- What two rows in relation have in common holds of the second one iff it holds of the first. -/
theorem rel_forall {p : α → Prop} (hr : ∀ {a b}, r a b → (p b ↔ p a)) (h : Option.Rel r x y) :
    (∀ b, y = some b → p b) ↔ ∀ a, x = some a → p a := by
  cases h with
  | none => simp
  | some h => simpa using hr h

theorem eq_none_of_rel (h : Option.Rel r none y) : y = none := by
  cases h with
  | none => rfl

theorem exists_of_rel {b : α} (h : Option.Rel r x (some b)) : ∃ a, x = some a ∧ r a b := by
  cases h with
  | some h => exact ⟨_, rfl, h⟩

theorem exists_of_rel' {a : α} (h : Option.Rel r (some a) y) : ∃ b, y = some b ∧ r a b := by
  cases h with
  | some h => exact ⟨_, rfl, h⟩

/-- What succeeds succeeds with the related argument, too. -/
theorem exists_of_within {f : α → Option β} {a b : α} {c : β} (h : Within r a b)
    (hf : r a b → Option.Rel (Within s) (f a) (f b)) (found : f a = some c) : ∃ d, f b = some d ∧ Within s c d := by
  rcases h with rfl | h
  · exact ⟨c, found, .inl rfl⟩
  · exact exists_of_rel' (found ▸ hf h)

/-- What is done next keeps a difference. -/
theorem rel_bind {f : α → Option β} (h : Option.Rel (Within r) x y)
    (hf : ∀ {a b}, r a b → Option.Rel (Within s) (f a) (f b)) : Option.Rel (Within s) (x.bind f) (y.bind f) := by
  cases h with
  | none => exact .none
  | some h =>
    rcases h with rfl | h
    · exact rel_refl (fun _ => .inl rfl) _
    · exact hf h

end Options

/-! ## Results -/

/-- Two results: both are faults, or what came out is related. -/
inductive Together {ε α : Type} (R : α → α → Prop) : Except ε α → Except ε α → Prop where
  | error (e e' : ε) : Together R (.error e) (.error e')
  | ok {x y : α} : R x y → Together R (.ok x) (.ok y)

section Results

variable {ε α β : Type} {R : α → α → Prop} {S : β → β → Prop}

theorem together_refl (x : Except ε α) : Together (Within R) x x := by
  cases x with
  | error e => exact .error e e
  | ok x => exact .ok (.inl rfl)

theorem together_bind {x y : Except ε α} {f : α → Except ε β} (h : Together (Within R) x y)
    (hf : ∀ {a b}, R a b → Together (Within S) (f a) (f b)) : Together (Within S) (x >>= f) (y >>= f) := by
  cases h with
  | error e e' => exact .error e e'
  | ok h =>
    rcases h with rfl | h
    · exact together_refl _
    · exact hf h

theorem Together.error_iff {x y : Except ε α} (h : Together R x y) : (∃ e, x = .error e) ↔ ∃ e, y = .error e := by
  cases h with
  | error e e' => exact ⟨fun _ => ⟨e', rfl⟩, fun _ => ⟨e, rfl⟩⟩
  | ok h => simp

/-- The same comes first in both. -/
theorem together_after (x : Except ε α) {f g : α → Except ε β} (h : ∀ a, Together S (f a) (g a)) :
    Together S (x >>= f) (x >>= g) := by
  cases x with
  | error e => exact .error e e
  | ok a => exact h a

theorem together_foldlM {f : β → α → Except ε β} (step : ∀ {s t} x, S s t → Together (Within S) (f s x) (f t x))
    (xs : List α) {s t : β} (h : S s t) : Together (Within S) (xs.foldlM f s) (xs.foldlM f t) := by
  induction xs generalizing s t with
  | nil => exact .ok (.inr h)
  | cons x xs ih => exact together_bind (step x h) ih

end Results

/-! ## Lists that differ in one element -/

/-- Two lists that differ in one element. -/
inductive Once {α : Type} (R : α → α → Prop) : List α → List α → Prop where
  | here {x y : α} (xs : List α) : R x y → Once R (x :: xs) (y :: xs)
  | there {xs ys : List α} (x : α) : Once R xs ys → Once R (x :: xs) (x :: ys)

/-- Two rows of a key. -/
inductive InRow {κ α : Type} (R : α → α → Prop) : κ × α → κ × α → Prop where
  | mk {x y : α} (key : κ) : R x y → InRow R (key, x) (key, y)

/-- Two pairs of which one half differs. -/
inductive Half {α β : Type} (R : α → α → Prop) (S : β → β → Prop) : α × β → α × β → Prop where
  | fst {x y : α} (z : β) : R x y → Half R S (x, z) (y, z)
  | snd (x : α) {y z : β} : S y z → Half R S (x, y) (x, z)

section Lists

variable {κ α : Type} {R : α → α → Prop} {xs ys : List α} {x y : α}

theorem Once.append_right (h : Once R xs ys) (zs : List α) : Once R (xs ++ zs) (ys ++ zs) := by
  induction h with
  | here xs h => exact .here _ h
  | there x _ ih => exact .there x ih

theorem Once.append_left (zs : List α) (h : Once R xs ys) : Once R (zs ++ xs) (zs ++ ys) := by
  induction zs with
  | nil => exact h
  | cons z zs ih => exact .there z ih

theorem Once.exists_append (h : Once R xs ys) :
    ∃ front x y back, xs = front ++ x :: back ∧ ys = front ++ y :: back ∧ R x y := by
  induction h with
  | here xs h => exact ⟨[], _, _, xs, rfl, rfl, h⟩
  | there x _ ih =>
    obtain ⟨front, y, z, back, rfl, rfl, h⟩ := ih
    exact ⟨x :: front, y, z, back, rfl, rfl, h⟩

/-- The last elements differ, or what stands before them does. -/
theorem Once.getLast? (h : Once R xs ys) :
    (xs.getLast? = ys.getLast? ∧ Once R xs.dropLast ys.dropLast) ∨
      ∃ x y, xs.getLast? = some x ∧ ys.getLast? = some y ∧ R x y ∧ xs.dropLast = ys.dropLast := by
  obtain ⟨front, x, y, back, rfl, rfl, differ⟩ := h.exists_append
  rcases back.eq_nil_or_concat with rfl | ⟨back, z, rfl⟩
  · exact .inr ⟨x, y, by simp, by simp, differ, by simp⟩
  · left
    rw [List.concat_eq_append, ← List.cons_append, ← List.cons_append, ← List.append_assoc, ← List.append_assoc,
      List.dropLast_concat, List.dropLast_concat, List.getLast?_concat, List.getLast?_concat]
    exact ⟨rfl, Once.append_left front (.here back differ)⟩

theorem Once.filter (p : α → Bool) (h : Once R xs ys) (same : ∀ {x y}, R x y → p x = p y) :
    Within (Once R) (xs.filter p) (ys.filter p) := by
  obtain ⟨front, x, y, back, rfl, rfl, differ⟩ := h.exists_append
  rw [List.filter_append, List.filter_append, List.filter_cons, List.filter_cons, ← same differ]
  split
  · exact .inr (Once.append_left _ (.here _ differ))
  · exact .inl rfl

theorem Once.foldlM {ε β : Type} {S : β → β → Prop} {f : β → α → Except ε β}
    (step : ∀ {s t} x, S s t → Together (Within S) (f s x) (f t x))
    (swap : ∀ s {x y}, R x y → Together (Within S) (f s x) (f s y)) (h : Once R xs ys) (s : β) :
    Together (Within S) (xs.foldlM f s) (ys.foldlM f s) := by
  induction h generalizing s with
  | here xs h => exact together_bind (swap s h) (together_foldlM step xs)
  | there x _ ih =>
    rw [List.foldlM_cons, List.foldlM_cons]
    exact together_after _ fun s => ih s

theorem Once.mapM {ε β : Type} {S : β → β → Prop} {f : α → Except ε β}
    (swap : ∀ {x y}, R x y → Together (Within S) (f x) (f y)) (h : Once R xs ys) :
    Together (Within (Once S)) (xs.mapM f) (ys.mapM f) := by
  induction h with
  | here xs h =>
    rw [List.mapM_cons, List.mapM_cons]
    exact together_bind (swap h) fun h => together_after _ fun zs => .ok (.inr (.here zs h))
  | there x _ ih =>
    rw [List.mapM_cons, List.mapM_cons]
    exact together_after _ fun z => together_bind ih fun h => .ok (.inr (.there z h))

/-- The elements get keys. -/
theorem Once.zip (h : Once R xs ys) (keys : List κ) : Within (Once (InRow R)) (keys.zip xs) (keys.zip ys) := by
  induction h generalizing keys with
  | here xs h =>
    cases keys with
    | nil => exact .inl rfl
    | cons key keys => exact .inr (.here _ (.mk key h))
  | there x _ ih =>
    cases keys with
    | nil => exact .inl rfl
    | cons key keys =>
      rcases ih keys with same | differ
      · exact .inl (congrArg (List.cons (key, x)) same)
      · exact .inr (.there _ differ)

variable [DecidableEq κ] {rows rows' : List (κ × α)}

open Table (find? put)

theorem once_put (h : R x y) (k : κ) (rows : List (κ × α)) : Once (InRow R) (put k x rows) (put k y rows) := by
  induction rows with
  | nil => exact .here [] (.mk k h)
  | cons row rows ih =>
    rw [put, put]
    split
    · exact .here rows (.mk k h)
    · exact .there _ ih

theorem filter_put (k : κ) (x : α) (rows : List (κ × α)) :
    (put k x rows).filter (fun r => r.1 ≠ k) = rows.filter fun r => r.1 ≠ k := by
  induction rows with
  | nil => simp [put]
  | cons row rows ih =>
    by_cases same : row.1 = k
    · simp [put, same]
    · simp only [put, if_neg same, List.filter_cons, ih]

/-- The rows of the key differ, or other rows do. -/
theorem Once.find?_put (h : Once (InRow R) rows rows') (k : κ) :
    (find? k rows = find? k rows' ∧ ∀ u, Once (InRow R) (put k u rows) (put k u rows')) ∨
      ∃ x y, find? k rows = some x ∧ find? k rows' = some y ∧ R x y ∧ ∀ u, put k u rows = put k u rows' := by
  induction h with
  | @here row row' rows h =>
    obtain ⟨key, h⟩ := h
    by_cases same : key = k
    · exact .inr ⟨_, _, if_pos same, if_pos same, h, fun u => by rw [put, put, if_pos same, if_pos same]⟩
    · refine .inl ⟨?_, fun u => ?_⟩
      · rw [find?, find?, if_neg same, if_neg same]
      · rw [put, put, if_neg same, if_neg same]
        exact .here _ (.mk key h)
  | @there rows rows' row h ih =>
    obtain ⟨key, v⟩ := row
    by_cases same : key = k
    · refine .inl ⟨?_, fun u => ?_⟩
      · rw [find?, find?, if_pos same, if_pos same]
      · rw [put, put, if_pos same, if_pos same]
        exact .there _ h
    · rw [find?, find?, if_neg same, if_neg same]
      rcases ih with ⟨found, ih⟩ | ⟨x, y, found, found', h', ih⟩
      · refine .inl ⟨found, fun u => ?_⟩
        rw [put, put, if_neg same, if_neg same]
        exact .there _ (ih u)
      · refine .inr ⟨x, y, found, found', h', fun u => ?_⟩
        rw [put, put, if_neg same, if_neg same, ih u]

end Lists

end Tenure
