import Tenure.Number.Magnitude
import Tenure.Text.Decimal

/-!
# The shortest decimal of a binary64 value

A finite value is written with the fewest significant digits that read back to it, and among those
with the ones nearest to it, the larger ones if two are equally near. The digits are written
positionally, with at least one digit on each side of the point and never an exponent.
-/

namespace Tenure

namespace Magnitude

/-- A decimal `coefficient · 10 ^ power`. -/
structure Scientific where
  /-- The significant digits, as a natural. -/
  coefficient : Nat
  /-- The place of the last of them. -/
  power : Int

namespace Scientific

/-- The magnitude a decimal reads as. -/
def read (s : Scientific) : Magnitude :=
  if 0 ≤ s.power then ofFraction (s.coefficient * Nat.pow 10 s.power.toNat) 1
  else ofFraction s.coefficient (Nat.pow 10 (-s.power).toNat)

/-- Positional digits, with at least one on each side of the point. -/
def positional (s : Scientific) : String :=
  let ds := Text.digits s.coefficient
  if 0 ≤ s.power then
    String.ofList (ds ++ List.replicate s.power.toNat '0' ++ ['.', '0'])
  else
    let places := (-s.power).toNat
    let padded := List.replicate (places + 1 - ds.length) '0' ++ ds
    String.ofList
      (padded.take (padded.length - places) ++ ['.'] ++ padded.drop (padded.length - places))

end Scientific

/-- The power of ten with `10 ^ p ≤ units · 2⁻¹⁰⁷⁴ < 10 ^ (p + 1)`, for positive `units`. -/
def decimalExponent (units : Nat) : Int :=
  if unitsPerOne ≤ units then ((Text.digits (units / unitsPerOne)).length : Int) - 1
  else (Text.digits (units * Nat.pow 10 400 / unitsPerOne)).length - 401

/-- The two decimals next to the value whose last digit stands at place `power`: the lower one and
the one above it, the nearer first. -/
def neighbours (units : Nat) (power : Int) : List Scientific :=
  let num := if 0 ≤ power then units else units * Nat.pow 10 (-power).toNat
  let den := if 0 ≤ power then unitsPerOne * Nat.pow 10 power.toNat else unitsPerOne
  let low : Scientific := ⟨num / den, power⟩
  let high : Scientific := ⟨num / den + 1, power⟩
  let rest := num % den
  if 2 * rest < den then [low, high] else [high, low]

/-- The shortest decimal that reads back. The first place tried is the one above the highest digit:
a value just below a power of ten may read back from that power alone. -/
def shortest (units : Nat) : Scientific :=
  let top := decimalExponent units + 1
  let candidates := (List.range 18).flatMap fun (i : Nat) => neighbours units (top - i)
  (candidates.find? fun s => s.read = .finite units).getD ⟨0, 0⟩

end Magnitude

/-- A binary64 value with a sign, or no number at all. -/
inductive Binary64 where
  /-- A signed magnitude. -/
  | signed (negative : Bool) (magnitude : Magnitude)
  /-- Not a number. -/
  | nan
deriving DecidableEq

/-- A binary64 value in decimal: the shortest digits, `inf` or `NaN`, after a minus sign if the
value is negative. -/
def Binary64.render : Binary64 → String
  | .nan => "NaN"
  | .signed negative m =>
    let text := match m with
      | .infinite => "inf"
      | .finite 0 => "0.0"
      | .finite units => (Magnitude.shortest units).positional
    if negative then "-" ++ text else text

end Tenure
