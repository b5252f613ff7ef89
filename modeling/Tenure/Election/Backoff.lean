import Tenure.Duration.Basic

/-!
# Waiting after lost campaigns

While campaigns are lost, the wait before the next one comes from a backoff. A pace gives a wait
for each count of failures; a jittered backoff adds a random whole number of milliseconds up to
half of that wait, so that contenders that lost together do not return together.
-/

namespace Tenure

/-- How the wait grows with the failures. -/
inductive Pace where
  /-- The same wait each time. -/
  | fixed (delay : Duration)
  /-- A wait that starts at `base` and doubles with every failure, up to `cap`. -/
  | exponential (base cap : Duration) (base_le_cap : base.nanos ≤ cap.nanos)

namespace Pace

/-- Doubling from `base` up to `cap`, or constant at `base` if that is the longer one. -/
def doubling (base cap : Duration) : Pace :=
  .exponential base (.max cap base) (by rw [Duration.nanos_max]; exact Nat.le_max_right _ _)

/-- The factor on the base: a power of two that fits in 32 bits, else the greatest such number. -/
def factor (failures : Nat) : Nat := if failures < 32 then Nat.pow 2 failures else 4294967295

/-- The wait after so many failures before the last one. -/
def wait : Pace → Nat → Duration
  | .fixed delay, _ => delay
  | .exponential base cap _, failures =>
    match base.times (factor failures) with
    | .ok d => .min d cap
    | .error _ => cap

end Pace

/-- Where the waits of lost campaigns come from. -/
structure Backoff where
  /-- The waits without chance. -/
  pace : Pace
  /-- Whether a random part is added. -/
  jittered : Bool

namespace Backoff

/-- The greatest jitter of a wait in milliseconds: half of it, as a 64-bit number. -/
def spread (delay : Duration) : Nat := delay.millis / 2 % 18446744073709551616

/-- Adds a random number of milliseconds up to the spread. Any `draw` is reduced to that range and
every number in the range is a draw. -/
def jitter (delay : Duration) (draw : Nat) : Except Overflow Duration :=
  if spread delay = 0 then .ok delay
  else
    match Duration.ofNanos? (draw % (spread delay + 1) * nanosPerMilli) with
    | some extra => delay.plus extra
    | none => .error .sum

/-- The wait after so many failures before the last one. -/
def next (b : Backoff) (failures draw : Nat) : Except Overflow Duration :=
  if b.jittered then jitter (b.pace.wait failures) draw else .ok (b.pace.wait failures)

end Backoff

end Tenure
