import Tenure.Election.Campaign

/-!
# Contenders

A contender keeps its standing, posts it for watchers, and executes calls of `run`. At most one of
them is in the campaign loop; a call that finds the loop taken is over at once. Each call stands at
one of a few points between which nothing else happens (`Phase`), and each can be cancelled by itself.
A call that a publisher makes is tied to it: it is cancelled with the publisher and not otherwise.
-/

namespace Tenure.Election

/-- Where a call of `run` stands. -/
inductive Phase where
  /-- Made, and not begun. -/
  | fresh
  /-- A call on the store, made at `asked`, has to wait until `due` before it acts. -/
  | calling (request : Request) (asked due : Nat)
  /-- Waiting for the next campaign. -/
  | waiting (due : Nat)
  /-- Returned. -/
  | over
  /-- Ended by an overflow, in the middle of the loop. -/
  | broken
deriving DecidableEq

namespace Phase

/-- Whether the call has ended. -/
def isOver : Phase → Bool
  | .over | .broken => true
  | _ => false

/-- Whether the call is in the campaign loop. -/
def inLoop : Phase → Bool
  | .calling _ _ _ | .waiting _ => true
  | _ => false

/-- The deadline of the timer the call waits for. -/
def deadline? : Phase → Option Nat
  | .calling _ _ due | .waiting due => some due
  | _ => none

end Phase

/-- A call of `run`. -/
structure Run where
  /-- Where it stands. -/
  phase : Phase := .fresh
  /-- What its campaigns remember. -/
  ledger : Ledger := {}
  /-- Whether it has been cancelled. -/
  cancelled : Bool := false
  /-- Whether the contender's publisher made it. -/
  tied : Bool := false
deriving DecidableEq

/-- Whether something can happen to the call now. -/
def Run.isReady (r : Run) (now : Nat) : Bool :=
  match r.phase with
  | .fresh => true
  | .calling _ _ due | .waiting due => r.cancelled || Clock.hasFired now due
  | .over | .broken => false

/-- A contender of an election. -/
structure Contender where
  /-- What does not change. -/
  candidacy : Candidacy
  /-- The standing. -/
  standing : Standing := .candidate
  /-- The standing as watchers see it. -/
  posted : Standing := .candidate
  /-- Whether it was posted since the watcher last looked. -/
  unseen : Bool := false
  /-- Whether a call of `run` has taken the loop. -/
  looping : Bool := false
  /-- The calls of `run`, oldest first. -/
  runs : List Run := []

namespace Contender

/-- Takes a standing and posts it. -/
def setStanding (c : Contender) (s : Standing) : Contender :=
  { c with standing := s, posted := s, unseen := true }

/-- Edits a call of `run`. -/
def modifyRun (c : Contender) (i : Nat) (f : Run → Run) : Contender :=
  { c with runs := c.runs.modify i f }

/-- Moves a call of `run` to another point. -/
def setPhase (c : Contender) (i : Nat) (phase : Phase) : Contender :=
  c.modifyRun i fun r => { r with phase := phase }

/-- Makes a call of `run`. -/
def start (c : Contender) (cancelled tied : Bool) : Contender :=
  { c with runs := c.runs ++ [{ cancelled := cancelled, tied := tied }] }

/-- Cancels every call of `run` that is tied, or every one that is not. -/
def cancel (c : Contender) (tied : Bool) : Contender :=
  { c with runs := c.runs.map fun r => if r.tied = tied then { r with cancelled := true } else r }

/-- Cancels a single call of `run`, unless it is tied. -/
def cancelRun (c : Contender) (i : Nat) : Contender :=
  c.modifyRun i fun r => if r.tied then r else { r with cancelled := true }

/-- Leaves the loop: the contender is no leader any more, whatever the store holds. -/
def leave (c : Contender) (i : Nat) : Contender :=
  { (c.setStanding .candidate).setPhase i .over with looping := false }

/-- Takes over the conclusion of a campaign. The standing is posted only if it changed. -/
def settle (c : Contender) (i : Nat) (e : Conclusion) : Contender :=
  let c := if c.standing = e.standing then c else c.setStanding e.standing
  c.modifyRun i fun r => { r with ledger := e.ledger }

/-- The number of calls of `run` that have not ended. -/
def running (c : Contender) : Nat := (c.runs.filter fun r => !r.phase.isOver).length

/-- Lets the watcher look. -/
def look (c : Contender) : Contender := { c with unseen := false }

end Contender

end Tenure.Election
