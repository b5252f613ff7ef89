import Tenure.Proofs.Duration.Reading

/-!
# Whole durations

Whole numbers of units are read back exactly as long as their sum is at most `2⁵³` nanoseconds.

- **Blanks** (`Text.trim_surround`): what is left of a text between blanks.
- **Amounts** (`Amount`, `value_term`): a whole number of some unit, with zeros in front, and its exact
  binary64 value.
- **Sums** (`sum_terms`, `denotes_spellings`, `parse_amounts`): amounts written one after another are read as
  their exact sum.
-/

namespace Tenure

namespace Text

/-- What begins with another character is kept. -/
theorem dropWhile_append_cons {p : Char → Bool} {xs ys : List Char} {c : Char}
    (dropped : ∀ x ∈ xs, p x = true) (kept : p c = false) :
    (xs ++ c :: ys).dropWhile p = c :: ys := by
  rw [List.dropWhile_append_of_pos dropped, List.dropWhile_cons, kept]
  rfl

/-- Blanks around a text are dropped, if it begins and ends with other characters. -/
theorem trim_surround {before after cs : List Char} (nonempty : cs ≠ [])
    (hbefore : ∀ c ∈ before, isBlank c = true) (hafter : ∀ c ∈ after, isBlank c = true)
    (first : isBlank (cs.head nonempty) = false) (last : isBlank (cs.getLast nonempty) = false) :
    trim (before ++ cs ++ after) = cs := by
  have front : (before ++ cs ++ after).dropWhile isBlank = cs ++ after := by
    rw [List.append_assoc, ← List.cons_head_tail nonempty, List.cons_append]
    exact dropWhile_append_cons hbefore first
  have back : (after.reverse ++ cs.reverse).dropWhile isBlank = cs.reverse := by
    have hlast : cs.reverse = cs.getLast nonempty :: cs.dropLast.reverse := by
      rw [← List.reverse_concat, List.dropLast_concat_getLast]
    rw [hlast]
    exact dropWhile_append_cons (fun c hc => hafter c (List.mem_reverse.1 hc)) last
  rw [trim, front, List.reverse_append, back, List.reverse_reverse]

theorem not_isBlank_of_isDigit {c : Char} (h : isDigit c = true) : isBlank c = false := by
  have range := toNat_of_isDigit h
  simp only [isBlank, Bool.or_eq_false_iff, Bool.and_eq_false_iff, decide_eq_false_iff_not, beq_eq_false_iff_ne]
  omega

theorem isDigit_of_mem_digits {n : Nat} {c : Char} (h : c ∈ digits n) : isDigit c = true :=
  (ofDigits?_eq_some_iff.1 (ofDigits_digits n)).2.1 c h

theorem numberOf_digits (n : Nat) : numberOf (digits n) = n :=
  (ofDigits?_eq_some_iff.1 (ofDigits_digits n)).2.2.symm

/-- Zeros in front do not count. -/
theorem numberOf_zeros (zeros : Nat) (ds : List Char) :
    numberOf (List.replicate zeros '0' ++ ds) = numberOf ds := by
  induction zeros with
  | zero => rfl
  | succ zeros ih => exact ih

end Text

namespace Duration

open Text Magnitude

/-! ## Amounts -/

/-- A whole number of some unit, written with some zeros in front. -/
structure Amount where
  /-- The zeros in front. -/
  zeros : Nat
  /-- The number. -/
  count : Nat
  /-- The unit. -/
  unit : TimeUnit

namespace Amount

/-- The exact number of nanoseconds. -/
def nanos (a : Amount) : Nat := a.count * a.unit.nanos

/-- The digits of the number. -/
def digits (a : Amount) : List Char := List.replicate a.zeros '0' ++ Text.digits a.count

/-- The amount as it is written. -/
def spelling (a : Amount) : List Char := a.digits ++ a.unit.spelling

theorem isDigit_of_mem {a : Amount} {c : Char} (h : c ∈ a.digits) : isDigit c = true := by
  rcases List.mem_append.1 h with h | h
  · rw [List.eq_of_mem_replicate h]
    decide
  · exact isDigit_of_mem_digits h

theorem not_isBlank_of_mem {a : Amount} {c : Char} (h : c ∈ a.spelling) : isBlank c = false := by
  have letters : ∀ u : TimeUnit, u.spelling.all (! isBlank ·) = true := by
    intro u
    cases u <;> decide
  rcases List.mem_append.1 h with h | h
  · exact not_isBlank_of_isDigit (isDigit_of_mem h)
  · simpa using List.all_eq_true.1 (letters a.unit) c h

theorem digits_ne_nil (a : Amount) : a.digits ≠ [] :=
  List.append_ne_nil_of_right_ne_nil _ (Text.digits_ne_nil _)

/-- The amount as a term without a point. -/
def term (a : Amount) : Term where
  numeral := {
    whole := a.digits
    fraction? := none
    digits := fun c hc => isDigit_of_mem (by simpa using hc)
    nonempty := by simpa using a.digits_ne_nil }
  unit := a.unit

theorem spelling_term (a : Amount) : a.term.spelling = a.spelling := by
  simp [Term.spelling, Numeral.spelling, term, spelling]

end Amount

theorem TimeUnit.nanos_pos (u : TimeUnit) : 0 < u.nanos := by
  cases u <;> decide

/-- The value of an amount is exact. -/
theorem value_term {a : Amount} (h : a.nanos ≤ wholeLimit) :
    a.term.value = .finite (a.nanos * unitsPerOne) := by
  have number : numberOf (a.digits ++ []) = a.count := by
    rw [List.append_nil, Amount.digits, numberOf_zeros, numberOf_digits]
  have small : a.count ≤ wholeLimit :=
    Nat.le_trans (Nat.le_mul_of_pos_right _ a.unit.nanos_pos) h
  have whole : a.term.numeral.value = .finite (a.count * unitsPerOne) := by
    rw [← ofFraction_whole small, ← number]
    rfl
  rw [Term.value, whole, Amount.term, scale_whole h]
  rfl

/-! ## Sums -/

/-- The exact number of nanoseconds of all amounts. -/
def Amount.total : List Amount → Nat
  | [] => 0
  | a :: as => a.nanos + Amount.total as

/-- Amounts written one after another. -/
def Amount.spellings (as : List Amount) : List Char := as.flatMap (·.spelling)

/-- Exact amounts add up exactly. -/
theorem foldl_terms (as : List Amount) {n : Nat} (fits : n + Amount.total as ≤ wholeLimit) :
    (as.map (·.term)).foldl (fun m t => Magnitude.add m t.value) (.finite (n * unitsPerOne)) =
      .finite ((n + Amount.total as) * unitsPerOne) := by
  induction as generalizing n with
  | nil => rfl
  | cons a as ih =>
    rw [Amount.total, ← Nat.add_assoc] at fits
    have one : a.nanos ≤ wholeLimit :=
      Nat.le_trans (Nat.le_add_left _ _) (Nat.le_trans (Nat.le_add_right _ _) fits)
    have both : n + a.nanos ≤ wholeLimit := Nat.le_trans (Nat.le_add_right _ _) fits
    rw [List.map_cons, List.foldl_cons, value_term one, add_whole both, ih fits, Amount.total, Nat.add_assoc]

theorem sum_terms {as : List Amount} (fits : Amount.total as ≤ wholeLimit) :
    Term.sum (as.map (·.term)) = .finite (Amount.total as * unitsPerOne) := by
  have fold := @foldl_terms as 0 ((Nat.zero_add _).symm ▸ fits)
  rw [Nat.zero_mul, Nat.zero_add] at fold
  exact fold

/-- Amounts denote their exact sum. -/
theorem denotes_spellings {as : List Amount} {d : Duration} (nonempty : as ≠ [])
    (fits : Amount.total as ≤ wholeLimit) (exactly : d.nanos = Amount.total as) :
    Denotes d (Amount.spellings as) := by
  have spelled : (as.map (·.term)).flatMap (·.spelling) = Amount.spellings as := by
    rw [List.flatMap_map, Amount.spellings]
    exact congrArg (List.flatMap · as) (funext Amount.spelling_term)
  have below : wholeLimit ≤ parseLimit - 1 := by decide
  have finite := sum_terms fits
  rw [← spelled]
  refine .terms (by simpa using nonempty) finite
    (Nat.mul_le_mul_right _ (Nat.le_trans fits (Nat.le_trans below (Nat.sub_le _ _))))
    (finite ▸ round?_whole (Amount.total as)) ?_
  rw [exactly]
  exact (Nat.min_eq_left (Nat.le_trans fits below)).symm

/-- Whole amounts are read back exactly as long as their sum is at most `2⁵³` nanoseconds, with or without a
plus sign and whatever blanks there are around them. -/
theorem parse_amounts {as : List Amount} (nonempty : as ≠ []) (fits : Amount.total as ≤ wholeLimit)
    {sign : List Char} (plus : sign = [] ∨ sign = ['+']) {before after : List Char}
    (hbefore : ∀ c ∈ before, isBlank c = true) (hafter : ∀ c ∈ after, isBlank c = true) :
    ∃ d, parse (String.ofList (before ++ (sign ++ Amount.spellings as) ++ after)) = .ok d ∧
      d.nanos = Amount.total as := by
  have below : wholeLimit ≤ limit := by decide
  let d : Duration := ⟨Amount.total as, Nat.le_trans fits below⟩
  have denotes : Denotes d (Amount.spellings as) := denotes_spellings nonempty fits rfl
  have signed : DenotesSigned d (sign ++ Amount.spellings as) := by
    rcases plus with rfl | rfl
    · exact .inl denotes
    · exact .inr ⟨_, rfl, denotes⟩
  have solid : ∀ c ∈ sign ++ Amount.spellings as, isBlank c = false := by
    intro c hc
    rcases List.mem_append.1 hc with hc | hc
    · rcases plus with rfl | rfl
      · cases hc
      · rw [List.mem_singleton.1 hc]
        decide
    · obtain ⟨a, -, ha⟩ := List.mem_flatMap.1 hc
      exact a.not_isBlank_of_mem ha
  have some : sign ++ Amount.spellings as ≠ [] := by
    obtain ⟨c, rest, same, -⟩ := denotes.exists_numeral
    exact List.append_ne_nil_of_right_ne_nil _ (same ▸ List.cons_ne_nil c rest)
  have trimmed := trim_surround some hbefore hafter (solid _ (List.head_mem some))
    (solid _ (List.getLast_mem some))
  refine ⟨d, parse_eq_ok_iff.2 (.inl ?_), rfl⟩
  rwa [String.toList_ofList, trimmed]

/-- An hour, two minutes and seven microseconds, with zeros in front. -/
def medley : List Amount := [⟨0, 1, .hour⟩, ⟨2, 2, .minute⟩, ⟨1, 0, .milli⟩, ⟨0, 7, .microSign⟩]

theorem parse_amounts_medley :
    ∃ d, parse " +1h002m00ms7\u00b5s\u00a0" = .ok d ∧ d.nanos = 3720000007000 := by
  have spelled : String.ofList ([' '] ++ (['+'] ++ Amount.spellings medley) ++ ['\u00a0']) =
      " +1h002m00ms7\u00b5s\u00a0" := by decide +kernel
  have total : Amount.total medley = 3720000007000 := by decide
  have blank : isBlank ' ' = true ∧ isBlank '\u00a0' = true := by decide
  obtain ⟨d, read, nanos⟩ := parse_amounts (List.cons_ne_nil _ _ : medley ≠ []) (by decide) (.inr rfl)
    (List.forall_mem_singleton.2 blank.1) (List.forall_mem_singleton.2 blank.2)
  exact ⟨d, spelled ▸ read, total ▸ nanos⟩

end Duration

end Tenure
