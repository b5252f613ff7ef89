import Tenure.Heartbeat.Message

/-!
# Outboxes

An outbox takes messages and keeps all of them, or refuses every one while it is switched to
fail.
-/

namespace Tenure

/-- Why a message is not sent. -/
inductive PublishError where
  /-- The receiver refuses it. -/
  | rejected (subject reason : String)
  /-- There is no connection. -/
  | unavailable (reason : String)
deriving DecidableEq

/-- The refusal in words. -/
def PublishError.message : PublishError → String
  | .rejected subject reason => "publish to " ++ subject ++ " rejected: " ++ reason
  | .unavailable reason => "transport unavailable: " ++ reason

/-- A message as an outbox keeps it. -/
structure Delivery where
  /-- Where it went. -/
  subject : String
  /-- Its bytes. -/
  body : Bytes
  /-- Its headers. -/
  headers : Headers

/-- A heartbeat as it is sent. -/
def Message.deliver (m : Message) : Delivery := ⟨m.subject, m.payload, m.headers⟩

/-- An outbox. -/
structure Outbox where
  /-- The messages sent, latest first. -/
  latest : List Delivery := []
  /-- Whether messages are refused. -/
  failing : Bool := false
  /-- How long a heartbeat is on its way before it is sent or refused. -/
  delay : Nat := 0

namespace Outbox

/-- The refusal of an outbox that is switched to fail. -/
def offline : PublishError := .unavailable "transport offline"

/-- Sends a message. -/
def send (o : Outbox) (d : Delivery) : Outbox × Except PublishError Unit :=
  if o.failing then (o, .error offline) else ({ o with latest := d :: o.latest }, .ok ())

/-- The messages in the order in which they were sent. -/
def sent (o : Outbox) : List Delivery := o.latest.reverse

/-- The number of messages on a subject. -/
def count (o : Outbox) (subject : String) : Nat :=
  (o.latest.filter fun d => d.subject = subject).length

end Outbox

end Tenure
