import Tenure.Duration.Basic

/-!
# The clock and its timers

An instant is the number of nanoseconds since the clock was started. Timers are coarser than the
clock: they fire on whole milliseconds. They wait for thirty years at most.

* `le_of_hasFired`: a timer never fires before its deadline.
* `hasFired_of_le`: it has fired once the clock is a millisecond past the deadline.
* `wake_le`: its deadline is no later than the end of its wait.
-/

namespace Tenure.Clock

/-- Instants lie below `2⁶³` seconds. -/
def limit : Nat := 9223372036854775808 * nanosPerSecond

/-- The instant a duration later, unless it is out of range. -/
def after (now : Nat) (d : Duration) : Except Overflow Nat :=
  if now + d.nanos < limit then .ok (now + d.nanos) else .error .deadline

/-- The longest wait of a timer: thirty years of 365 days. -/
@[irreducible] def longestWait : Nat := 30 * 365 * 24 * 60 * 60 * nanosPerSecond

/-- The wait of a timer that is asked to wait for so many nanoseconds. -/
def cut (nanos : Nat) : Nat := Nat.min nanos longestWait

/-- The deadline of a timer that is set at `now` to a wait of so many nanoseconds. -/
def wake (now nanos : Nat) : Nat := now + cut nanos

/-- The whole milliseconds of the clock, rounded down. -/
def millis (now : Nat) : Nat := now / nanosPerMilli

/-- The first whole millisecond at or after a deadline, when its timer fires. -/
def dueMillis (deadline : Nat) : Nat :=
  deadline / nanosPerMilli + if deadline % nanosPerMilli = 0 then 0 else 1

/-- Whether a timer for the deadline has fired. -/
def hasFired (now deadline : Nat) : Bool := dueMillis deadline ≤ millis now

theorem cut_le (nanos : Nat) : cut nanos ≤ nanos := Nat.min_le_left _ _

theorem cut_of_le {nanos : Nat} (h : nanos ≤ longestWait) : cut nanos = nanos :=
  Nat.min_eq_left h

theorem wake_le (now nanos : Nat) : wake now nanos ≤ now + nanos :=
  Nat.add_le_add_left (cut_le nanos) now

theorem hasFired_iff {now deadline : Nat} :
    hasFired now deadline = true ↔ dueMillis deadline ≤ millis now := by
  simp [hasFired]

/-- A timer never fires before its deadline. -/
theorem le_of_hasFired {now deadline : Nat} (h : hasFired now deadline = true) :
    deadline ≤ now := by
  rw [hasFired_iff] at h
  simp only [dueMillis, millis, nanosPerMilli] at h
  by_cases hz : deadline % 1000000 = 0 <;> simp only [hz, if_true, if_false] at h <;> omega

/-- A timer has fired once the clock is a millisecond past the deadline. -/
theorem hasFired_of_le {now deadline : Nat} (h : deadline + nanosPerMilli ≤ now + 1) :
    hasFired now deadline = true := by
  rw [hasFired_iff]
  simp only [dueMillis, millis, nanosPerMilli] at *
  by_cases hz : deadline % 1000000 = 0 <;> simp only [hz, if_true, if_false] <;> omega

theorem dueMillis_mono {a b : Nat} (h : a ≤ b) : dueMillis a ≤ dueMillis b := by
  unfold dueMillis nanosPerMilli
  split <;> split <;> omega

theorem millis_le_dueMillis (now : Nat) : millis now ≤ dueMillis now := by
  unfold millis dueMillis
  exact Nat.le_add_right _ _

/-- When a timer fires, its deadline lies less than two milliseconds back. -/
theorem lt_of_millis_le {now deadline : Nat} (h : millis now ≤ dueMillis deadline) :
    now < deadline + 2 * nanosPerMilli := by
  unfold millis dueMillis nanosPerMilli at *
  split at h <;> omega

end Tenure.Clock
