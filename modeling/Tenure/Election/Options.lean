import Tenure.Election.Backoff
import Tenure.Election.Standing
import Tenure.Election.Timing
import Tenure.Text.Quoted

/-!
# The terms of an election

What a contender brings to an election, and the checks before it may contend. A candidacy is the
outcome: everything about a contender that does not change while it contends.
-/

namespace Tenure.Election

/-- Switches for experiments. -/
structure Relaxations where
  /-- Accept leases that leave too little room for their renewal. -/
  anyTiming : Bool := false
  /-- Campaign at the plain interval also while losing. -/
  noBackoff : Bool := false
deriving DecidableEq

/-- Who hears of the campaigns of a contender. -/
inductive Audience where
  /-- Nobody. -/
  | nobody
  /-- A listener that does nothing. -/
  | idle
  /-- A listener that keeps a record. -/
  | chronicle
  /-- The gate of the publisher that the contender belongs to. -/
  | gate
deriving DecidableEq, Inhabited

/-- What a contender brings to an election. -/
structure Options where
  /-- The election's name, shared by all contenders. -/
  name : String := ""
  /-- The key within the store. -/
  key : String := ""
  /-- The label of the contender in logs and metrics. -/
  replicator : String := ""
  /-- The store that is contended in. -/
  bucket? : Option String := none
  /-- The lease. -/
  ttl : Duration := .seconds 30
  /-- The time between campaigns. -/
  interval : Duration := .seconds 15
  /-- Where waits come from while losing. -/
  backoff? : Option Backoff := none
  /-- Who hears of the campaigns. -/
  audience : Audience := .nobody
  /-- Switches for experiments. -/
  relaxations : Relaxations := {}

/-- Everything about a contender that does not change. -/
structure Candidacy where
  /-- The election's name. -/
  name : String
  /-- The key in the store: the election's name, a point, the contended key. -/
  key : String
  /-- The label of the contender. -/
  replicator : String
  /-- What the contender writes under the key. -/
  identity : String
  /-- The store. -/
  bucket : String
  /-- The lease. -/
  ttl : Duration
  /-- The time between campaigns. -/
  interval : Duration
  /-- Where waits come from while losing. -/
  backoff? : Option Backoff
  /-- Who hears of the campaigns. -/
  audience : Audience

/-- The key under which the election of a name contends for a key. -/
def storageKey (name key : String) : String := name ++ "." ++ key

/-- What a contender is known by: its label, its host and a number of its own. -/
def signature (replicator host nonce : String) : String := replicator ++ "@" ++ host ++ "/" ++ nonce

/-- The candidacy on some options, for a contender on `host` with its own `nonce`. The first check
that fails is the one reported. -/
def Candidacy.ofOptions (o : Options) (host nonce : String) : Except Error Candidacy :=
  if o.name.isEmpty then .error (.config (.election .noName))
  else if o.key.isEmpty then .error (.config (.election .noKey))
  else match o.bucket? with
    | none => .error (.config (.election .noBucket))
    | some bucket =>
      if o.interval.nanos = 0 then .error (.config (.election .zeroInterval))
      else do
        let fault? ←
          if o.relaxations.anyTiming then .ok none else Overflow.lift (checkTiming o.ttl o.interval)
        match fault? with
        | some fault => .error (.config (.election (.lease fault)))
        | none =>
          .ok {
            name := o.name
            key := storageKey o.name o.key
            replicator := o.replicator
            identity := signature o.replicator host nonce
            bucket := bucket
            ttl := o.ttl
            interval := o.interval
            backoff? := if o.relaxations.noBackoff then none else o.backoff?
            audience := o.audience }

/-- A truth value in words. -/
private def yesNo (b : Bool) : String := if b then "true" else "false"

/-- Named fields between braces, as logs show a record. -/
def showRecord (name : String) (fields : List (String × String)) : String :=
  name ++ " \x7b " ++ String.intercalate ", " (fields.map fun f => f.1 ++ ": " ++ f.2) ++ " \x7d"

/-- The switches as logs show them. -/
def Relaxations.toText (r : Relaxations) : String :=
  showRecord "TestMode" [
    ("skip_ttl_validation", yesNo r.anyTiming),
    ("disable_backoff", yesNo r.noBackoff)]

/-- The options as logs show them; of the store, the backoff and the listener, only whether they
are there. -/
def Options.toText (o : Options) : String :=
  showRecord "ElectionOptions" [
    ("name", Text.quote o.name),
    ("key", Text.quote o.key),
    ("replicator", Text.quote o.replicator),
    ("bucket", yesNo o.bucket?.isSome),
    ("ttl", o.ttl.toText),
    ("campaign_interval", o.interval.toText),
    ("backoff", yesNo o.backoff?.isSome),
    ("observer", yesNo (o.audience ≠ .nobody)),
    ("test_mode", o.relaxations.toText)]

/-- A candidacy and its standing as logs show them, with `identity` in the place of its own. -/
def Candidacy.toText (c : Candidacy) (identity : String) (standing : Standing) : String :=
  showRecord "Election" [
    ("name", Text.quote c.name),
    ("key", Text.quote c.key),
    ("identity", identity),
    ("ttl", c.ttl.toText),
    ("campaign_interval", c.interval.toText),
    ("state", standing.name)]

end Tenure.Election
