import Tenure.Duration.Basic
import Tenure.Text.Decimal

/-!
# Durations in words

A duration is shown in the largest of the units s, ms, µs and ns of which it has at least one, with
the rest as a decimal fraction without trailing zeros.
-/

namespace Tenure.Duration

/-- A whole number of units and a fraction `rest / unit`, where `unit` is `10 ^ places`. -/
def showIn (unit places : Nat) (name : String) (n : Nat) : String :=
  let rest := n % unit
  let padded := List.replicate (places - (Text.digits rest).length) '0' ++ Text.digits rest
  let fraction := (padded.reverse.dropWhile (· = '0')).reverse
  let whole := Text.decimal (n / unit)
  if rest = 0 then whole ++ name else whole ++ "." ++ String.ofList fraction ++ name

/-- The duration as messages show it. -/
def toText (d : Duration) : String :=
  if nanosPerSecond ≤ d.nanos then showIn nanosPerSecond 9 "s" d.nanos
  else if nanosPerMilli ≤ d.nanos then showIn nanosPerMilli 6 "ms" d.nanos
  else if 1000 ≤ d.nanos then showIn 1000 3 "µs" d.nanos
  else showIn 1 0 "ns" d.nanos

end Tenure.Duration
