/-!
# The standing of a contender

A contender of an election either holds the key or campaigns for it.
-/

namespace Tenure

/-- A contender's own view of an election. -/
inductive Standing where
  /-- Not holding the key. -/
  | candidate
  /-- Holding the key and renewing it. -/
  | leader
deriving DecidableEq, Inhabited

namespace Standing

/-- The label of a standing. -/
def label : Standing → String
  | .candidate => "candidate"
  | .leader => "leader"

/-- The name of a standing. -/
def name : Standing → String
  | .candidate => "Candidate"
  | .leader => "Leader"

/-- Whether it is that of a leader. -/
def isLeader : Standing → Bool
  | .candidate => false
  | .leader => true

@[simp] theorem isLeader_eq_true_iff {s : Standing} : s.isLeader = true ↔ s = .leader := by
  cases s <;> decide

@[simp] theorem isLeader_eq_false_iff {s : Standing} : s.isLeader = false ↔ s = .candidate := by
  cases s <;> decide

end Standing

end Tenure
