import Tenure.Election.Standing
import Tenure.Metrics.Family
import Tenure.Text.Bytes

/-!
# Series

A series is a number of a family under labels. Series are kept in slots: within a family the slot
is the fingerprint of the labels' values written one after the other. Nothing marks where a value
ends, so the values `a`, `bc` and `ab`, `c` share a slot.
-/

namespace Tenure.Metrics

/-- A labelled number. -/
inductive Series where
  /-- 1 while the subject receives heartbeats. -/
  | subjectActive (replicator subject : String)
  /-- 1 while publication is suspended. -/
  | paused (replicator : String)
  /-- Heartbeats published. -/
  | published (replicator subject : String)
  /-- Heartbeats that could not be published. -/
  | publishErrors (replicator subject : String)
  /-- Campaigns by the standing they ended in. -/
  | campaigns (replicator election : String) (standing : Standing)
  /-- 1 while the contender is leader. -/
  | leader (replicator election : String)
deriving DecidableEq

/-- Where a series is kept. -/
structure Slot where
  /-- The family. -/
  family : Family
  /-- The fingerprint of the labels' values. -/
  mark : UInt64
deriving DecidableEq

namespace Series

/-- The family of a series. -/
def family : Series → Family
  | .subjectActive _ _ => .subjects
  | .paused _ => .paused
  | .published _ _ => .published
  | .publishErrors _ _ => .publishErrors
  | .campaigns _ _ _ => .campaigns
  | .leader _ _ => .leader

/-- The values of the labels, the replicator first. -/
def values : Series → List String
  | .subjectActive replicator subject | .published replicator subject
  | .publishErrors replicator subject => [replicator, subject]
  | .paused replicator => [replicator]
  | .campaigns replicator election standing => [replicator, election, standing.label]
  | .leader replicator election => [replicator, election]

/-- The labels of a series, in the order of their names. -/
def labels : Series → List (String × String)
  | .subjectActive replicator subject | .published replicator subject
  | .publishErrors replicator subject => [("replicator", replicator), ("subject", subject)]
  | .paused replicator => [("replicator", replicator)]
  | .campaigns replicator election standing =>
    [("election", election), ("replicator", replicator), ("state", standing.label)]
  | .leader replicator election => [("election", election), ("replicator", replicator)]

/-- Where the series is kept. -/
def slot (s : Series) : Slot := ⟨s.family, fingerprint (utf8 (String.join s.values))⟩

theorem slot_ne_of_family_ne {s t : Series} (h : s.family ≠ t.family) : s.slot ≠ t.slot :=
  fun e => h (congrArg Slot.family e)

end Series

end Tenure.Metrics
