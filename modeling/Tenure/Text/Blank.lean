/-!
# Blank characters

The property White_Space of the Unicode Standard, and the text between the outermost characters
that do not have it.
-/

namespace Tenure.Text

/-- The characters with the property White_Space. -/
def isBlank (c : Char) : Bool :=
  let n := c.toNat
  (9 ≤ n && n ≤ 13) || n == 0x20 || n == 0x85 || n == 0xa0 || n == 0x1680 ||
    (0x2000 ≤ n && n ≤ 0x200a) || n == 0x2028 || n == 0x2029 || n == 0x202f || n == 0x205f ||
    n == 0x3000

/-- Drops the blanks at both ends. -/
def trim (cs : List Char) : List Char :=
  ((cs.dropWhile isBlank).reverse.dropWhile isBlank).reverse

/-- A text is all blank iff nothing is left of it. -/
theorem trim_eq_nil_iff {cs : List Char} : trim cs = [] ↔ ∀ c ∈ cs, isBlank c = true := by
  have drop (l : List Char) : l.dropWhile isBlank = [] ↔ ∀ c ∈ l, isBlank c = true := by
    induction l with
    | nil => simp
    | cons c l ih => by_cases h : isBlank c = true <;> simp [h, ih]
  rw [trim, List.reverse_eq_nil_iff, drop]
  constructor
  · intro h
    rw [← drop]
    cases hd : cs.dropWhile isBlank with
    | nil => rfl
    | cons c l =>
      have hc : isBlank c = true := h c (by simp [hd])
      have := List.head_dropWhile_not isBlank (l := cs) (by simp [hd])
      simp [hd, hc] at this
  · intro h c hc
    rw [(drop cs).2 h] at hc
    simp at hc

end Tenure.Text
