import Tenure.Election.Options
import Tenure.Lease.Store

/-!
# Campaigns

A contender campaigns over and over. A candidate tries to write the key, a leader to renew it with
the revision it wrote last; the store's answer alone decides the standing after the campaign.
`conclude` is one campaign from its answer on: the new standing, what is remembered for the next
campaign, the calls the contender makes in the course of it, in order, and the wait.
-/

namespace Tenure.Election

/-- A call on the store. -/
inductive Request where
  /-- Write the key if nobody holds it. -/
  | acquire
  /-- Replace the entry of this revision. -/
  | renew (revision : Nat)
deriving DecidableEq

/-- The answer of a store to a call: the revision of the write, or a refusal. -/
abbrev Answer := Except StoreError Nat

instance : DecidableEq Answer := fun a b =>
  match a, b with
  | .ok x, .ok y => if h : x = y then isTrue (h ▸ rfl) else isFalse fun e => h (Except.ok.inj e)
  | .error x, .error y =>
    if h : x = y then isTrue (h ▸ rfl) else isFalse fun e => h (Except.error.inj e)
  | .ok _, .error _ | .error _, .ok _ => isFalse nofun

/-- What a run of campaigns remembers. -/
structure Ledger where
  /-- The number of the next campaign. -/
  tick : Nat := 0
  /-- The revision written last while leading. -/
  revision? : Option Nat := none
  /-- Campaigns lost in a row, up to the greatest 32-bit number. -/
  failures : Nat := 0
deriving DecidableEq

/-- The call of the next campaign. A leader that remembers no revision makes none. -/
def request? (standing : Standing) (ledger : Ledger) : Option Request :=
  match standing with
  | .candidate => some .acquire
  | .leader => ledger.revision?.map .renew

/-- A call that a contender makes in the course of its campaigns. -/
inductive Note where
  /-- A call on the store begins. -/
  | asked (request : Request)
  /-- The call acts and is answered. -/
  | answered (request : Request) (answer : Answer)
  /-- The backoff returns to its base. -/
  | backoffReset
  /-- The listener hears of a win, and sees this standing. -/
  | won (seen : Standing)
  /-- The listener hears of a loss, and sees this standing. -/
  | lost (seen : Standing)
  /-- The listener hears of a finished campaign. -/
  | campaigned (tick : Nat) (standing : Standing) (changed : Bool)
  /-- The backoff is asked for a wait. -/
  | backedOff (failures : Nat) (wait : Duration)
deriving DecidableEq

/-- One more failure, up to the greatest 32-bit number. -/
def countFailure (failures : Nat) : Nat := Nat.min (failures + 1) 4294967295

/-- The standing after a campaign: that of a leader iff the store took the write. -/
def standingAfter : Option Answer → Standing
  | some (.ok _) => .leader
  | _ => .candidate

/-- What is remembered after a campaign. -/
def Ledger.after (ledger : Ledger) (before : Standing) (answer? : Option Answer) : Ledger :=
  match before, answer? with
  | .candidate, some (.ok revision) =>
    { tick := ledger.tick + 1, revision? := some revision, failures := 0 }
  | .candidate, _ =>
    { ledger with tick := ledger.tick + 1, failures := countFailure ledger.failures }
  | .leader, some (.ok revision) =>
    { ledger with tick := ledger.tick + 1, revision? := some revision }
  | .leader, some (.error _) => { tick := ledger.tick + 1, revision? := none, failures := 0 }
  | .leader, none => { ledger with tick := ledger.tick + 1 }

/-- The calls a contender makes between the store's answer and its wait. A won key resets the
backoff; then the listener hears of a change, and last of the campaign. -/
def notesOf (hasBackoff : Bool) (tick : Nat) (before after : Standing) : List Note :=
  (if hasBackoff ∧ before = .candidate ∧ after = .leader then [.backoffReset] else []) ++
    (if before = after then [] else if after = .leader then [.won after] else [.lost after]) ++
    [.campaigned tick after (before ≠ after)]

/-- How long to wait for the next campaign. -/
inductive Wait where
  /-- The campaign interval. -/
  | plain
  /-- As the backoff says for so many failures before the last one. -/
  | backoff (strategy : Backoff) (failures : Nat)

/-- The wait after a campaign: a candidate that lost a campaign asks its backoff. -/
def waitAfter (backoff? : Option Backoff) (standing : Standing) (failures : Nat) : Wait :=
  match backoff?, standing with
  | some strategy, .candidate => if 0 < failures then .backoff strategy (failures - 1) else .plain
  | _, _ => .plain

/-- A campaign from its answer on. -/
structure Conclusion where
  /-- The standing after it. -/
  standing : Standing
  /-- What is remembered for the next one. -/
  ledger : Ledger
  /-- The calls made in its course, in order. -/
  notes : List Note
  /-- The wait for the next one. -/
  wait : Wait

/-- Concludes a campaign; there is no answer if there was no call. -/
def conclude (backoff? : Option Backoff) (before : Standing) (ledger : Ledger)
    (answer? : Option Answer) : Conclusion :=
  let after := standingAfter answer?
  let next := ledger.after before answer?
  { standing := after
    ledger := next
    notes := notesOf backoff?.isSome ledger.tick before after
    wait := waitAfter backoff? after next.failures }

end Tenure.Election
