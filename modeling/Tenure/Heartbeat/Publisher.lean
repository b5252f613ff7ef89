import Tenure.Config.Basic
import Tenure.Election.Options
import Tenure.Heartbeat.Outbox
import Tenure.Heartbeat.Ticker

/-!
# Publishers

A publisher has a loop for each configured subject. Each loop publishes at its own pace; while the
publisher is gated by an election and paused, ticks pass without a heartbeat. A publisher can be
started once.
-/

namespace Tenure

/-- A subject with its pace and the headers of its heartbeats. -/
structure Schedule where
  /-- The subject. -/
  subject : String
  /-- The time between heartbeats. -/
  interval : Duration
  /-- The global headers with the subject's own laid over them. -/
  headers : Headers

namespace Publisher

/-- Where a subject's loop stands. -/
inductive Phase where
  /-- Made, and not begun. -/
  | fresh
  /-- Waiting for the next tick. -/
  | idle (ticker : Ticker)
  /-- A heartbeat is on its way until `due`. -/
  | sending (ticker : Ticker) (message : Message) (due : Nat)
  /-- Ended. -/
  | over

/-- The deadline of the timer the loop waits for. -/
def Phase.deadline? : Phase → Option Nat
  | .idle ticker => some ticker.next
  | .sending _ _ due => some due
  | .fresh | .over => none

/-- Whether something can happen to the loop now. -/
def Phase.isReady (p : Phase) (cancelled : Bool) (now : Nat) : Bool :=
  match p with
  | .fresh => true
  | .idle ticker => cancelled || ticker.isDue now
  | .sending _ _ due => cancelled || Clock.hasFired now due
  | .over => false

/-- A subject's loop. -/
structure Loop where
  /-- What it publishes. -/
  schedule : Schedule
  /-- Where it stands. -/
  phase : Phase := .fresh

/-- The task that marks the publisher as paused when it is cancelled. -/
inductive Closing where
  /-- The publisher has not been started. -/
  | absent
  /-- Waiting for the cancellation. -/
  | armed
  /-- Done. -/
  | done
deriving DecidableEq

end Publisher

/-- A publisher of heartbeats. -/
structure Publisher where
  /-- The label in metrics. -/
  replicator : String
  /-- The host the heartbeats name. -/
  host : String
  /-- The outbox. -/
  outbox : String
  /-- The subjects, in order. -/
  schedules : List Schedule
  /-- Whether publication depends on an election. -/
  gated : Bool
  /-- Whether publication is suspended. -/
  paused : Bool
  /-- Whether it has been started. -/
  started : Bool := false
  /-- Whether it has been cancelled. -/
  cancelled : Bool := false
  /-- When it is to be cancelled. -/
  stopAt? : Option Nat := none
  /-- The loops of the subjects, once it is started. -/
  loops : List Publisher.Loop := []
  /-- The task at its end. -/
  closing : Publisher.Closing := .absent

namespace Publisher

/-- The subjects, in order. -/
def subjects (p : Publisher) : List String := p.schedules.map (·.subject)

/-- Sets a timer for the end of the publisher. Of several timers the first one ends it. -/
def stopAt (p : Publisher) (due : Nat) : Publisher :=
  { p with stopAt? := some ((p.stopAt?.map (Nat.min due)).getD due) }

/-- Whether a timer is to end the publisher now. -/
def mustStop (p : Publisher) (now : Nat) : Bool :=
  !p.cancelled && (p.stopAt?.map (Clock.hasFired now)).getD false

/-- Moves a loop to another point. -/
def setPhase (p : Publisher) (j : Nat) (phase : Phase) : Publisher :=
  { p with loops := p.loops.modify j fun l => { l with phase := phase } }

/-- The schedule of a subject. -/
def scheduleOf (global : Headers) (s : SubjectSettings) : Except ConfigFault Schedule := do
  return ⟨s.name, ← s.period, Headers.merge global s.headers⟩

/-- The backoff of a publisher's election: the campaign interval and, from the second loss on,
twice that, with jitter. -/
def backoffOf (interval : Duration) : Except Overflow Backoff := do
  return { pace := .doubling interval (← interval.times 2), jittered := true }

/-- Turns a fault of the configuration into an error. -/
def refuse {α : Type} : Except ConfigFault α → Except Error α
  | .ok a => .ok a
  | .error fault => .error (.config fault)

/-- The terms on which a publisher contends. -/
def optionsOf (c : Config) (replicator : String) (bucket? : Option String)
    (relaxations : Election.Relaxations) : Except Error Election.Options := do
  let ttl ← refuse c.election.lease
  let interval ← refuse c.election.campaignPeriod
  let backoff ← Overflow.lift (backoffOf interval)
  return {
    name := c.election.name
    key := c.election.key
    replicator := replicator
    bucket? := bucket?
    ttl := ttl
    interval := interval
    backoff? := some backoff
    audience := .gate
    relaxations := relaxations }

/-- The publisher of a configuration on `host`, and its candidacy if publication depends on an
election. It begins suspended exactly then. -/
def ofConfig (c : Config) (replicator host outbox : String) (bucket? : Option String)
    (relaxations : Election.Relaxations) (nonce : String) :
    Except Error (Publisher × Option Election.Candidacy) := do
  refuse c.check
  let schedules ← refuse (c.subjects.mapM (scheduleOf c.headers))
  let publisher : Publisher := {
    replicator := replicator
    host := host
    outbox := outbox
    schedules := schedules
    gated := c.leaderElection
    paused := c.leaderElection }
  if c.leaderElection then
    let options ← optionsOf c replicator bucket? relaxations
    let candidacy ← Election.Candidacy.ofOptions options host nonce
    return (publisher, some candidacy)
  else
    return (publisher, none)

end Publisher

end Tenure
