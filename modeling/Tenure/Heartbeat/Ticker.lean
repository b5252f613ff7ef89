import Tenure.Duration.Clock

/-!
# Tickers

A ticker is due once per period. A tick that comes late does not shift the ones after it, unless
it comes more than five milliseconds late: then the period starts again from that moment, so ticks
that were missed are not made up for. The first tick is due at an instant of its own; between later
ones lies no more than the longest wait of a timer.
-/

namespace Tenure

/-- A ticker with the deadline of its next tick. -/
structure Ticker where
  /-- The time between ticks. -/
  period : Nat
  /-- When the next tick is due. -/
  next : Nat
deriving DecidableEq

namespace Ticker

/-- How late a tick may come without a new start of the period. -/
def tolerance : Nat := 5 * nanosPerMilli

/-- A ticker whose first tick is an interval away. -/
def start (now interval : Nat) : Ticker := ⟨Clock.cut interval, now + interval⟩

/-- Whether the next tick has come. -/
def isDue (t : Ticker) (now : Nat) : Bool := Clock.hasFired now t.next

/-- The ticker after its next tick came at `now`. -/
def tick (t : Ticker) (now : Nat) : Ticker :=
  { t with next := if tolerance < now - t.next then now + t.period else t.next + t.period }

@[simp] theorem period_tick (t : Ticker) (now : Nat) : (t.tick now).period = t.period := rfl

theorem next_tick (t : Ticker) (now : Nat) :
    (t.tick now).next = if tolerance < now - t.next then now + t.period else t.next + t.period :=
  rfl

/-- Ticks that are at most five milliseconds late keep to the grid of the first deadline. -/
theorem next_tick_of_le {t : Ticker} {now : Nat} (h : now ≤ t.next + tolerance) :
    (t.tick now).next = t.next + t.period := by
  rw [next_tick, if_neg (Nat.not_lt.2 (Nat.sub_le_iff_le_add'.2 h))]

/-- The next tick is never due earlier than a period after the last one, less the tolerance. -/
theorem le_next_tick (t : Ticker) (now : Nat) :
    now + t.period ≤ (t.tick now).next + tolerance := by
  rw [next_tick]
  generalize tolerance = e
  split <;> omega

end Ticker

end Tenure
