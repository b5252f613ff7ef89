/-!
# Durations

A duration is a whole number of nanoseconds below `2⁶⁴` seconds. Arithmetic that would leave that
range stops with an `Overflow`.
-/

namespace Tenure

/-- The nanoseconds in a millisecond, the step of the timers. -/
def nanosPerMilli : Nat := 1000000

/-- The nanoseconds in a second. -/
def nanosPerSecond : Nat := 1000000000

/-- Arithmetic on time that left its range. -/
inductive Overflow where
  /-- A multiple of a duration. -/
  | multiple
  /-- A sum of durations. -/
  | sum
  /-- A deadline: an instant and a duration after it. -/
  | deadline
deriving DecidableEq

/-- The overflow in words. -/
def Overflow.message : Overflow → String
  | .multiple => "overflow when multiplying duration by scalar"
  | .sum => "overflow when adding durations"
  | .deadline => "overflow when adding duration to instant"

/-- The greatest number of nanoseconds a duration can have: `2⁶⁴` seconds less one nanosecond. -/
def Duration.limit : Nat := 18446744073709551616 * nanosPerSecond - 1

/-- A span of time in whole nanoseconds. -/
structure Duration where
  /-- Its nanoseconds. -/
  nanos : Nat
  /-- They are in range. -/
  bounded : nanos ≤ Duration.limit
deriving DecidableEq

namespace Duration

@[ext] theorem ext {a b : Duration} (h : a.nanos = b.nanos) : a = b := by
  cases a; cases b; cases h; rfl

/-- The duration with this many nanoseconds, if it is in range. -/
def ofNanos? (n : Nat) : Option Duration :=
  if h : n ≤ limit then some ⟨n, h⟩ else none

/-- No time at all. -/
def zero : Duration := ⟨0, Nat.zero_le _⟩

instance : Inhabited Duration := ⟨zero⟩

/-- A literal number of seconds. -/
def seconds (n : Nat) (h : n * nanosPerSecond ≤ limit := by decide) : Duration :=
  ⟨n * nanosPerSecond, h⟩

/-- Whole milliseconds, rounded down. -/
def millis (d : Duration) : Nat := d.nanos / nanosPerMilli

/-- Half of it, rounded down to whole nanoseconds. -/
def half (d : Duration) : Duration :=
  ⟨d.nanos / 2, Nat.le_trans (Nat.div_le_self _ _) d.bounded⟩

/-- The shorter of two. -/
def min (a b : Duration) : Duration := if a.nanos ≤ b.nanos then a else b

/-- The longer of two. -/
def max (a b : Duration) : Duration := if a.nanos ≤ b.nanos then b else a

/-- A multiple, unless it is out of range. -/
def times (d : Duration) (k : Nat) : Except Overflow Duration :=
  match ofNanos? (d.nanos * k) with
  | some r => .ok r
  | none => .error .multiple

/-- A sum, unless it is out of range. -/
def plus (a b : Duration) : Except Overflow Duration :=
  match ofNanos? (a.nanos + b.nanos) with
  | some r => .ok r
  | none => .error .sum

@[simp] theorem nanos_zero : zero.nanos = 0 := rfl

@[simp] theorem nanos_half (d : Duration) : d.half.nanos = d.nanos / 2 := rfl

@[simp] theorem nanos_min (a b : Duration) : (min a b).nanos = Nat.min a.nanos b.nanos := by
  unfold min; split <;> rename_i h <;> simp [Nat.min_def, h]

@[simp] theorem nanos_max (a b : Duration) : (max a b).nanos = Nat.max a.nanos b.nanos := by
  unfold max; split <;> rename_i h <;> simp [Nat.max_def, h]

theorem ofNanos?_eq_some_iff {n : Nat} {d : Duration} :
    ofNanos? n = some d ↔ d.nanos = n := by
  unfold ofNanos?
  split
  · rw [Option.some.injEq]
    exact ⟨fun h => by rw [← h], fun h => by ext; exact h.symm⟩
  · rename_i h
    simp only [reduceCtorEq, false_iff]
    exact fun e => h (e ▸ d.bounded)

theorem ofNanos?_eq_none_iff {n : Nat} : ofNanos? n = none ↔ limit < n := by
  unfold ofNanos?; split <;> simp <;> omega

/-- Arithmetic that ends in so many nanoseconds is exact, and fails exactly if they are out of range. -/
theorem ofNanos?_result_iff {n : Nat} {r : Duration} {e : Overflow} :
    (match ofNanos? n with
      | some d => .ok d
      | none => .error e : Except Overflow Duration) = .ok r ↔ r.nanos = n := by
  rw [← ofNanos?_eq_some_iff]
  cases ofNanos? n <;> simp

/-- A multiple is exact, and out of range exactly when its nanoseconds are. -/
theorem times_eq_ok_iff {d r : Duration} {k : Nat} :
    d.times k = .ok r ↔ r.nanos = d.nanos * k := ofNanos?_result_iff

theorem times_eq_error_iff {d : Duration} {k : Nat} {e : Overflow} :
    d.times k = .error e ↔ e = .multiple ∧ limit < d.nanos * k := by
  unfold times
  rw [← ofNanos?_eq_none_iff]
  cases ofNanos? (d.nanos * k) <;> simp [eq_comm]

/-- A sum is exact, and out of range exactly when its nanoseconds are. -/
theorem plus_eq_ok_iff {a b r : Duration} : a.plus b = .ok r ↔ r.nanos = a.nanos + b.nanos :=
  ofNanos?_result_iff

end Duration

end Tenure
