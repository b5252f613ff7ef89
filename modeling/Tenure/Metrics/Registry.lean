import Tenure.Metrics.Series
import Tenure.Table

/-!
# Registries of metrics

A registry holds numbers by slot. A series comes into being, with value zero, when it is first
written or read; series that share a slot share its number, and the slot shows the labels of the
one that came first.

`value_set` and `value_increment` say what the operations do to values.
-/

namespace Tenure.Metrics

/-- The slots in use, each with the series that came first and the number. -/
abbrev Registry := Table Slot (Series × Nat)

namespace Registry

/-- The number in the slot of a series; zero if there is none. -/
def value (r : Registry) (s : Series) : Nat := ((r.get? s.slot).map Prod.snd).getD 0

/-- The series shown in the slot of a series: itself if it is the first one there. -/
def holder (r : Registry) (s : Series) : Series := ((r.get? s.slot).map Prod.fst).getD s

/-- Sets a series. -/
def set (r : Registry) (s : Series) (n : Nat) : Registry := r.insert s.slot (r.holder s, n)

/-- Makes sure that a series is there. -/
def touch (r : Registry) (s : Series) : Registry := r.set s (r.value s)

/-- Sets a series to 1 or 0. -/
def setFlag (r : Registry) (s : Series) (on : Bool) : Registry := r.set s (if on then 1 else 0)

/-- Adds one to a series. -/
def increment (r : Registry) (s : Series) : Registry := r.set s (r.value s + 1)

theorem value_congr (r : Registry) {s t : Series} (h : s.slot = t.slot) :
    r.value s = r.value t := by simp only [value, h]

theorem value_set (r : Registry) (s t : Series) (n : Nat) :
    (r.set s n).value t = if s.slot = t.slot then n else r.value t := by
  simp only [value, set, Table.get?_insert]
  split <;> simp

theorem value_setFlag (r : Registry) (s t : Series) (on : Bool) :
    (r.setFlag s on).value t = if s.slot = t.slot then (if on then 1 else 0) else r.value t :=
  value_set r s t _

theorem value_increment (r : Registry) (s t : Series) :
    (r.increment s).value t = r.value t + if s.slot = t.slot then 1 else 0 := by
  rw [increment, value_set]
  split
  · rename_i h; rw [value_congr r h]
  · rfl

@[simp] theorem value_touch (r : Registry) (s t : Series) : (r.touch s).value t = r.value t := by
  rw [touch, value_set]
  split
  · rename_i h; rw [value_congr r h]
  · rfl

end Registry

end Tenure.Metrics
