import Tenure.World.Basic
import Tenure.Text.Decimal

/-!
# Calls from outside

What a user of a world can do at an instant: open contenders and publishers, start and cancel them,
look at them, and use stores and outboxes directly. None of it moves the clock or lets a task go
on.
-/

namespace Tenure.World

open Election

/-- The number that tells the next contender from all others. -/
def nonce (w : World) : String := Text.decimal w.born

/-- Adds a contender. -/
def enrol (w : World) (id : String) (c : Candidacy) : World :=
  { w with contenders := w.contenders.insert id { candidacy := c }, born := w.born + 1 }

/-- Opens a contender. -/
def openContender (w : World) (id : String) (o : Options) : Except Error World := do
  return w.enrol id (← Candidacy.ofOptions o w.host w.nonce)

/-- Opens a publisher, with a contender of the same name if publication depends on an election. -/
def openPublisher (w : World) (id : String) (c : Config) (replicator outbox : String)
    (bucket? : Option String) (relaxations : Relaxations) : Except Error World := do
  let (publisher, candidacy?) ←
    Publisher.ofConfig c replicator w.host outbox bucket? relaxations w.nonce
  let w := { w with publishers := w.publishers.insert id publisher }
  return match candidacy? with
    | some candidacy => w.enrol id candidacy
    | none => w

/-- Cancels every call of a contender's `run` but that of its publisher. -/
def cancelContender (w : World) (id : String) : World := w.modifyContender id (·.cancel false)

/-- Cancels a single call of a contender's `run`, if it is not that of its publisher. -/
def cancelRun (w : World) (id : String) (i : Nat) : World := w.modifyContender id (·.cancelRun i)

/-- Cancels a publisher, and its call of its contender's `run` with it. -/
def cancelPublisher (w : World) (id : String) : World :=
  (w.modifyPublisher id fun p => { p with cancelled := true }).modifyContender id (·.cancel true)

/-- Sets a timer that cancels a publisher. -/
def stopPublisherAt (w : World) (id : String) (due : Nat) : World :=
  w.modifyPublisher id (·.stopAt due)

/-- Calls `run` of a contender. The call may be cancelled from the start. -/
def callRun (w : World) (id : String) (cancelled : Bool) : World :=
  w.modifyContender id (·.start cancelled false)

/-- Calls `run` of a contender whose calls share a token: if this one is to be cancelled from the start,
so are the earlier ones. A call with a token of its own is `callRun`, and `cancelRun` cancels it. -/
def startContender (w : World) (id : String) (cancelled : Bool) : World :=
  (if cancelled then w.cancelContender id else w).callRun id cancelled

/-- The metrics at the start of a publisher: whether it is suspended, and every subject inactive
until the election is won. -/
def announce (p : Publisher) (m : Metrics.Registry) : Metrics.Registry :=
  let m := m.setFlag (.paused p.replicator) p.gated
  if p.gated then
    p.subjects.foldl (fun m s => m.setFlag (.subjectActive p.replicator s) false) m
  else m

/-- Starts a publisher that has not been started before. -/
def runPublisher (w : World) (id : String) : World × Except Error Unit :=
  match w.publishers.get? id with
  | none => (w, .ok ())
  | some p =>
    if p.started then (w, .error (.invalidState (.alreadyRunning p.replicator)))
    else
      let w := w.modifyMetrics (announce p)
      let w := if p.gated then w.modifyContender id (·.start p.cancelled true) else w
      let w := w.modifyPublisher id fun p =>
        { p with
          started := true
          loops := p.schedules.map fun s => { schedule := s }
          closing := .armed }
      (w, .ok ())

/-- Starts a publisher, cancelled before if asked for. All starts share the token of the publisher. No run
is lost by this: one that was started before refuses without a look at the token it is given, so a
refused start with a cancelled token of its own is a start that is not cancelled. -/
def startPublisher (w : World) (id : String) (cancelled : Bool) : World × Except Error Unit :=
  (if cancelled then w.cancelPublisher id else w).runPublisher id

/-- Lets the watcher of a contender look. -/
def look (w : World) (id : String) : World := w.modifyContender id (·.look)

/-- Edits a store. -/
def modifyStore (w : World) (name : String) (f : Lease.Store → Lease.Store) : World :=
  w.setStore name (f (w.bucket name).store)

/-- Writes a key of a store. -/
def create (w : World) (name key : String) (value : Bytes) (ttl : Duration) : World × Answer :=
  let (store, answer) := (w.bucket name).store.create w.now key value ttl
  (w.setStore name store, answer)

/-- Replaces the entry of a key of a store. -/
def update (w : World) (name key : String) (value : Bytes) (revision : Nat) (ttl : Duration) :
    World × Answer :=
  let (store, answer) := (w.bucket name).store.update w.now key value revision ttl
  (w.setStore name store, answer)

/-- The value and revision of a key of a store. -/
def get? (w : World) (name key : String) : Option (Bytes × Nat) :=
  (w.bucket name).store.get? w.now key

/-- Sets the delay of contenders' calls on a store. -/
def setStoreDelay (w : World) (name : String) (delay : Nat) : World :=
  { w with buckets := w.buckets.insert name { w.bucket name with delay := delay } }

/-- Edits an outbox. -/
def modifyOutbox (w : World) (name : String) (f : Outbox → Outbox) : World :=
  w.setOutbox name (f (w.outbox name))

/-- Sends a message. -/
def publish (w : World) (name : String) (d : Delivery) : World × Except PublishError Unit :=
  let (outbox, answer) := (w.outbox name).send d
  (w.setOutbox name outbox, answer)

/-- Reads a series. -/
def readMetric (w : World) (s : Metrics.Series) : World × Nat :=
  (w.modifyMetrics (·.touch s), w.metrics.value s)

end Tenure.World
