import Tenure.World.Basic

/-!
# Publishers at work

A subject's loop goes on from one point where it waits to the next. It first looks whether its
publisher has been cancelled; if so it ends, and a heartbeat on its way is never sent. At a tick it
publishes, unless the publisher is gated and suspended.
-/

namespace Tenure.World

/-- Moves a loop to another point. -/
def moveLoop (w : World) (id : String) (j : Nat) (phase : Publisher.Phase) : World :=
  w.modifyPublisher id (·.setPhase j phase)

/-- Ends a loop. -/
def endLoop (w : World) (id : String) (j : Nat) (p : Publisher) (s : Schedule) : World :=
  (w.moveLoop id j .over).modifyMetrics (·.setFlag (.subjectActive p.replicator s.subject) false)

/-- Counts a heartbeat that was sent or refused. -/
def countSent (w : World) (replicator subject : String) (answer : Except PublishError Unit) :
    World :=
  match answer with
  | .ok _ => w.modifyMetrics (·.increment (.published replicator subject))
  | .error _ => w.modifyMetrics (·.increment (.publishErrors replicator subject))

/-- Sends a heartbeat and goes back to waiting for ticks. -/
def sendBeat (w : World) (id : String) (j : Nat) (p : Publisher) (t : Ticker) (m : Message) :
    World :=
  let (outbox, answer) := (w.outbox p.outbox).send m.deliver
  let w := (w.setOutbox p.outbox outbox).record (.loop id j) (.sent m.subject answer)
  (w.countSent p.replicator m.subject answer).moveLoop id j (.idle t)

/-- Begins to publish a heartbeat. A delay of the outbox holds it back. -/
def beat (w : World) (id : String) (j : Nat) (p : Publisher) (s : Schedule) (t : Ticker) : World :=
  let m := Message.stamp s.subject p.host s.headers w.wall
  let w := w.record (.loop id j) (.sending m)
  let delay := (w.outbox p.outbox).delay
  if delay = 0 then w.sendBeat id j p t m
  else w.moveLoop id j (.sending t m (Clock.wake w.now delay))

/-- Lets a tick pass without a heartbeat. -/
def passTick (w : World) (id : String) (j : Nat) (t : Ticker) : World :=
  (w.record (.loop id j) .passed).moveLoop id j (.idle (t.tick w.now))

/-- Lets the loop of the `j`-th subject go on. -/
def pollLoop (w : World) (id : String) (j : Nat) : World :=
  match w.publishers.get? id with
  | none => w
  | some p =>
    match p.loops[j]? with
    | none => w
    | some l =>
      match l.phase with
      | .fresh =>
        let w := if p.gated then w
          else w.modifyMetrics (·.setFlag (.subjectActive p.replicator l.schedule.subject) true)
        if p.cancelled then w.endLoop id j p l.schedule
        else w.moveLoop id j (.idle (.start w.now l.schedule.interval.nanos))
      | .idle t =>
        if p.cancelled then w.endLoop id j p l.schedule
        else if !t.isDue w.now then w
        else if p.gated && p.paused then w.passTick id j t
        else w.beat id j p l.schedule (t.tick w.now)
      | .sending t m due =>
        if p.cancelled then w.endLoop id j p l.schedule
        else if Clock.hasFired w.now due then w.sendBeat id j p t m
        else w
      | .over => w

/-- Lets the end of a publisher go on: once it is cancelled it counts as suspended. -/
def pollClosing (w : World) (id : String) : World :=
  match w.publishers.get? id with
  | none => w
  | some p =>
    if p.closing = .armed ∧ p.cancelled then
      (w.modifyPublisher id fun p => { p with paused := true, closing := .done }).modifyMetrics
        (·.setFlag (.paused p.replicator) true)
    else w

end Tenure.World
