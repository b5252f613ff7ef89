import Tenure.World.Beating
import Tenure.World.Calls
import Tenure.World.Campaigning

/-!
# The order of things

Tasks take turns. `settle` lets every task go on that can, until the world is at rest. `sleep`
moves the clock from one timer to the next and lets the world come to rest at each; `jump` moves
the clock at once. Tasks that can go on at the same instant take turns in the order in which they
came into being, contenders before loops, and timers that end publishers come last.
-/

namespace Tenure.World

/-- All tasks. -/
def tasks (w : World) : List Task :=
  (w.contenders.toList.flatMap fun (id, c) => (List.range c.runs.length).map (.run id)) ++
    (w.publishers.toList.flatMap fun (id, p) => (List.range p.loops.length).map (.loop id)) ++
    w.publishers.keys.map .closing ++ w.publishers.keys.map .stopping

/-- Whether a task can go on now. -/
def isReady (w : World) : Task → Bool
  | .run id i => (((w.contenders.get? id).bind (·.runs[i]?)).map (·.isReady w.now)).getD false
  | .loop id j =>
    match w.publishers.get? id with
    | some p => ((p.loops[j]?).map fun l => l.phase.isReady p.cancelled w.now).getD false
    | none => false
  | .closing id =>
    match w.publishers.get? id with
    | some p => p.closing = .armed && p.cancelled
    | none => false
  | .stopping id => ((w.publishers.get? id).map (·.mustStop w.now)).getD false

/-- The deadline of the timer a task waits for. -/
def deadline? (w : World) : Task → Option Nat
  | .run id i => ((w.contenders.get? id).bind (·.runs[i]?)).bind (·.phase.deadline?)
  | .loop id j => ((w.publishers.get? id).bind (·.loops[j]?)).bind (·.phase.deadline?)
  | .closing _ => none
  | .stopping id => (w.publishers.get? id).bind fun p => if p.cancelled then none else p.stopAt?

/-- Lets the timer for the end of a publisher go on. -/
def pollStopping (w : World) (id : String) : World :=
  if ((w.publishers.get? id).map (·.mustStop w.now)).getD false then w.cancelPublisher id else w

/-- Lets a task go on. Chance, where it is needed, is `draw`. -/
def poll (w : World) (t : Task) (draw : Nat) : World :=
  match t with
  | .run id i => w.pollRun id i draw
  | .loop id j => w.pollLoop id j
  | .closing id => w.pollClosing id
  | .stopping id => w.pollStopping id

/-- Lets tasks go on that can, as often as there is fuel for. -/
def settleWith : Nat → World → World
  | 0, w => w
  | fuel + 1, w =>
    match w.tasks.find? w.isReady with
    | some t => settleWith fuel (w.poll t 0)
    | none => w

/-- How often tasks may go on at one instant. Only tasks that wait for no time at all come near. -/
def patience : Nat := 10000000

/-- Lets every task go on that can. -/
def settle (w : World) : World := settleWith patience w

/-- The earliest whole millisecond at which a timer fires. -/
def nextMillis? (w : World) : Option Nat :=
  ((w.tasks.filterMap w.deadline?).map Clock.dueMillis).min?

/-- Moves the clock forward to a whole millisecond and keeps its part below that. -/
def advanceMillis (w : World) (ms : Nat) : World :=
  { w with now := w.now + (ms - Clock.millis w.now) * nanosPerMilli }

/-- Moves the clock from timer to timer up to a millisecond. Every step takes the clock at least
one millisecond further, so there are at most as many steps as milliseconds. -/
def sleepUntil (target : Nat) : Nat → World → World
  | 0, w => (w.advanceMillis target).settle
  | steps + 1, w =>
    match w.nextMillis? with
    | some ms =>
      if ms < target then sleepUntil target steps ((w.advanceMillis ms).settle)
      else (w.advanceMillis target).settle
    | none => (w.advanceMillis target).settle

/-- Sleeps for a time: until a timer for the end of it fires. -/
def sleep (w : World) (d : Duration) : World :=
  let target := Clock.dueMillis (Clock.wake w.now d.nanos)
  sleepUntil target (target - Clock.millis w.now) w.settle

/-- Moves the clock at once, unless that would lead beyond its range. -/
def jump (w : World) (d : Duration) : Except Overflow World := do
  return { w with now := ← Clock.after w.now d }.settle

/-- Starts a publisher, sets a timer that cancels it, and waits until it has ended. A publisher that
was cancelled before ends at once. One that was started before is not waited for, but the timer
will cancel it all the same. -/
def runUntilStopped (w : World) (id : String) (d : Duration) : World × Except Error Unit :=
  let cancelled := ((w.publishers.get? id).map (·.cancelled)).getD false
  let (w, answer) := w.runPublisher id
  let w := w.stopPublisherAt id (Clock.wake w.now d.nanos)
  match answer with
  | .error e => (w, .error e)
  | .ok () => (if cancelled then w.settle else w.sleep d, .ok ())

end Tenure.World
