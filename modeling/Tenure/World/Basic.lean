import Tenure.Election.Contender
import Tenure.Heartbeat.Publisher
import Tenure.Metrics.Registry

/-!
# Worlds

A world holds everything that contenders and publishers share: the clock, stores, outboxes and
metrics, and the contenders and publishers themselves. Whatever happens in it is recorded, latest
first.
-/

namespace Tenure

/-- A store, and how long the calls of contenders are on their way before they act. -/
structure Bucket where
  /-- The leased keys. -/
  store : Lease.Store := {}
  /-- The delay of a contender's call. -/
  delay : Nat := 0

/-- Where an event comes from. -/
inductive Source where
  /-- A contender. -/
  | contender (id : String)
  /-- The loop at a place in a publisher's list of subjects. -/
  | loop (publisher : String) (index : Nat)
deriving DecidableEq

/-- What happened. -/
inductive Happening where
  /-- A contender made a call. -/
  | noted (note : Election.Note)
  /-- A tick of a loop passed while publication was suspended. -/
  | passed
  /-- A loop began to publish a heartbeat. -/
  | sending (message : Message)
  /-- The heartbeat was sent or refused. -/
  | sent (subject : String) (answer : Except PublishError Unit)

/-- An event of a world. -/
structure Event where
  /-- The clock. -/
  time : Nat
  /-- Where it comes from. -/
  source : Source
  /-- What happened. -/
  what : Happening

/-- Something that waits for its turn. -/
inductive Task where
  /-- A call of a contender's `run`. -/
  | run (contender : String) (index : Nat)
  /-- The loop of a publisher's subject. -/
  | loop (publisher : String) (index : Nat)
  /-- The end of a publisher. -/
  | closing (publisher : String)
  /-- The timer for the end of a publisher. -/
  | stopping (publisher : String)
deriving DecidableEq

/-- Everything that contenders and publishers share, and they themselves. -/
structure World where
  /-- The host. -/
  host : String := "localhost"
  /-- The time of day, in nanoseconds since 1970. -/
  wall : Int := 0
  /-- The clock. -/
  now : Nat := 0
  /-- The stores that have been used. -/
  buckets : Table String Bucket := .empty
  /-- The outboxes that have been used. -/
  outboxes : Table String Outbox := .empty
  /-- The contenders, also those of publishers, which have the publisher's name. -/
  contenders : Table String Election.Contender := .empty
  /-- The publishers. -/
  publishers : Table String Publisher := .empty
  /-- How many contenders there have been. -/
  born : Nat := 0
  /-- The metrics. -/
  metrics : Metrics.Registry := .empty
  /-- What happened, latest first. -/
  history : List Event := []

namespace World

/-- A store by name; a new one is empty. -/
def bucket (w : World) (name : String) : Bucket := w.buckets.getD name {}

/-- An outbox by name; a new one is empty. -/
def outbox (w : World) (name : String) : Outbox := w.outboxes.getD name {}

/-- Puts a store in the place of another. -/
def setStore (w : World) (name : String) (s : Lease.Store) : World :=
  { w with buckets := w.buckets.insert name { w.bucket name with store := s } }

/-- Puts an outbox in the place of another. -/
def setOutbox (w : World) (name : String) (o : Outbox) : World :=
  { w with outboxes := w.outboxes.insert name o }

/-- Edits a contender. -/
def modifyContender (w : World) (id : String) (f : Election.Contender → Election.Contender) :
    World :=
  { w with contenders := w.contenders.modify id f }

/-- Edits a publisher. -/
def modifyPublisher (w : World) (id : String) (f : Publisher → Publisher) : World :=
  { w with publishers := w.publishers.modify id f }

/-- Edits the metrics. -/
def modifyMetrics (w : World) (f : Metrics.Registry → Metrics.Registry) : World :=
  { w with metrics := f w.metrics }

/-- Records an event. -/
def record (w : World) (source : Source) (what : Happening) : World :=
  { w with history := ⟨w.now, source, what⟩ :: w.history }

/-- Records a call of a contender. -/
def note (w : World) (id : String) (n : Election.Note) : World :=
  w.record (.contender id) (.noted n)

end World

end Tenure
