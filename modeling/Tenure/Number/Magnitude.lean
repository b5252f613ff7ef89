/-!
# Binary64 magnitudes

The nonnegative values of the binary64 format. Every finite one is a whole multiple of the least
positive one, `2⁻¹⁰⁷⁴`, so it is kept as that multiple: a sum of magnitudes is then the rounded sum
of two naturals, and no exponent is carried around.

* `roundUnits`: the multiple nearest to a quotient, at most 53 bits long, ties to the even one.
* `roundUnits_of_dvd`: a quotient that has such a multiple is not changed.
-/

namespace Tenure

/-- A nonnegative binary64 value. -/
inductive Magnitude where
  /-- The value `units · 2⁻¹⁰⁷⁴`. -/
  | finite (units : Nat)
  /-- What lies beyond the greatest finite value. -/
  | infinite
deriving DecidableEq

namespace Magnitude

/-- The quotient of two naturals rounded to the nearest natural, a tie to the even one. -/
def divHalfEven (n d : Nat) : Nat :=
  let q := n / d
  let r := n % d
  if 2 * r < d then q else if d < 2 * r then q + 1 else q + q % 2

/-- How many low bits of a quotient with whole part `q` do not fit into 53 bits. -/
def excess (q : Nat) : Nat := Nat.log2 q + 1 - 53

/-- The quotient of two naturals rounded to 53 bits. -/
def roundUnits (n d : Nat) : Nat :=
  let e := excess (n / d)
  divHalfEven n (d * Nat.pow 2 e) * Nat.pow 2 e

/-- The number of units in `1`. -/
def unitsPerOne : Nat := Nat.pow 2 1074

/-- The magnitude nearest to `n / d` units. -/
def ofUnits (n d : Nat) : Magnitude :=
  let u := roundUnits n d
  if u < Nat.pow 2 1024 * unitsPerOne then .finite u else .infinite

/-- The magnitude nearest to the fraction `n / d`. -/
def ofFraction (n d : Nat) : Magnitude := ofUnits (n * unitsPerOne) d

/-- The rounded sum. -/
def add : Magnitude → Magnitude → Magnitude
  | .finite a, .finite b => ofUnits (a + b) 1
  | _, _ => .infinite

/-- The rounded product with a positive natural that is itself a binary64 value. -/
def scale : Magnitude → Nat → Magnitude
  | .finite a, k => ofUnits (a * k) 1
  | .infinite, _ => .infinite

/-- The nearest natural, a half going up; none when there is no finite value. -/
def round? : Magnitude → Option Nat
  | .finite u => some ((2 * u + unitsPerOne) / (2 * unitsPerOne))
  | .infinite => none

theorem divHalfEven_of_dvd {n d : Nat} (hd : 0 < d) (h : d ∣ n) : divHalfEven n d = n / d := by
  unfold divHalfEven
  simp only [Nat.mod_eq_zero_of_dvd h, Nat.mul_zero, hd, if_true]

/-- A number of units whose low bits beyond the 53rd are zero is not changed. -/
theorem roundUnits_of_dvd {n : Nat} (h : Nat.pow 2 (excess n) ∣ n) : roundUnits n 1 = n := by
  unfold roundUnits
  simp only [Nat.div_one, Nat.one_mul]
  have hp : 0 < Nat.pow 2 (excess n) := Nat.two_pow_pos _
  rw [divHalfEven_of_dvd hp h, Nat.div_mul_cancel h]

end Magnitude

end Tenure
