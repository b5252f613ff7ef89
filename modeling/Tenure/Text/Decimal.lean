/-!
# Whole numbers in decimal

The body of a heartbeat is a whole number of seconds, written with decimal digits and a minus sign
when negative. Reading takes an optional sign and one or more digits, and refuses a number outside
the range of signed 64-bit integers.

* `ofDigits_digits`: the digits of a number read back to it.
-/

namespace Tenure.Text

/-- The value of a decimal digit. -/
def digitValue? (c : Char) : Option Nat :=
  if '0' ≤ c ∧ c ≤ '9' then some (c.toNat - '0'.toNat) else none

/-- Whether the character is one of `0` to `9`. -/
def isDigit (c : Char) : Bool := (digitValue? c).isSome

theorem toNat_of_isDigit {c : Char} (h : isDigit c = true) : 48 ≤ c.toNat ∧ c.toNat ≤ 57 := by
  unfold isDigit digitValue? at h
  split at h
  · assumption
  · cases h

/-- The digit of a number below ten. -/
def digit (n : Nat) : Char := Char.ofNat ('0'.toNat + n)

/-- The decimal digits of a number, the highest first. -/
def digits (n : Nat) : List Char :=
  if n < 10 then [digit n] else digits (n / 10) ++ [digit (n % 10)]

/-- The number whose digits follow those of `acc`; none if a character is no digit. -/
def ofDigitsFrom (acc : Nat) : List Char → Option Nat
  | [] => some acc
  | c :: cs => (digitValue? c).bind fun d => ofDigitsFrom (acc * 10 + d) cs

/-- The number with these digits; none for the empty text. -/
def ofDigits? (cs : List Char) : Option Nat :=
  if cs.isEmpty then none else ofDigitsFrom 0 cs

/-- A number in decimal. -/
def decimal (n : Nat) : String := String.ofList (digits n)

/-- An integer in decimal. -/
def decimalInt : Int → String
  | .ofNat n => decimal n
  | .negSucc n => String.ofList ('-' :: digits (n + 1))

/-- The least and the greatest signed 64-bit integer. -/
def int64Range : Int × Int := (-9223372036854775808, 9223372036854775807)

/-- Whether an integer fits in 64 bits with sign. -/
def fitsInt64 (n : Int) : Bool := int64Range.1 ≤ n && n ≤ int64Range.2

/-- Reads an optional sign and one or more digits, within the signed 64-bit integers. -/
def int64? (cs : List Char) : Option Int :=
  let value? : Option Int := match cs with
    | '-' :: ds => (ofDigits? ds).map fun n => -(n : Int)
    | '+' :: ds => (ofDigits? ds).map Int.ofNat
    | ds => (ofDigits? ds).map Int.ofNat
  value?.filter fitsInt64

theorem digitValue?_digit {n : Nat} (h : n < 10) : digitValue? (digit n) = some n := by
  have : ∀ m : Fin 10, digitValue? (digit m) = some m.val := by decide
  exact this ⟨n, h⟩

theorem ofDigitsFrom_append (acc : Nat) (xs ys : List Char) :
    ofDigitsFrom acc (xs ++ ys) = (ofDigitsFrom acc xs).bind (ofDigitsFrom · ys) := by
  induction xs generalizing acc with
  | nil => rfl
  | cons c xs ih =>
    simp only [List.cons_append, ofDigitsFrom]
    cases digitValue? c <;> simp [ih]

theorem digits_ne_nil (n : Nat) : digits n ≠ [] := by
  unfold digits; split <;> simp

theorem ofDigitsFrom_digits (n : Nat) : ofDigitsFrom 0 (digits n) = some n := by
  induction n using Nat.strongRecOn with
  | _ n ih =>
    unfold digits
    split
    · rename_i h; simp [ofDigitsFrom, digitValue?_digit h]
    · rename_i h
      rw [ofDigitsFrom_append, ih (n / 10) (by omega)]
      simp only [Option.bind_some, ofDigitsFrom, digitValue?_digit (Nat.mod_lt n (by decide : 0 < 10))]
      congr 1; omega

/-- The digits of a number read back to it. -/
theorem ofDigits_digits (n : Nat) : ofDigits? (digits n) = some n := by
  unfold ofDigits?
  rw [if_neg (by simp [digits_ne_nil]), ofDigitsFrom_digits]

end Tenure.Text
