import Tenure.Duration.Basic
import Tenure.Heartbeat.Headers
import Tenure.Text.Bytes
import Tenure.Text.Decimal

/-!
# Heartbeat messages

A heartbeat says who is alive and when: its body is the time of publication in whole seconds since
1970, in decimal, and two headers give the publishing host and the subject. Nothing a user
configures can take the place of those two.
-/

namespace Tenure

/-- A heartbeat as it is sent. -/
structure Message where
  /-- Where it goes. -/
  subject : String
  /-- Decimal seconds since 1970. -/
  body : String
  /-- The configured headers and the two reserved ones. -/
  headers : Headers

namespace Message

/-- The heartbeat for a subject, published by `host` at `time`, in nanoseconds since 1970. A time
within a second counts as its beginning, also before 1970. -/
def stamp (subject host : String) (configured : Headers) (time : Int) : Message where
  subject := subject
  body := Text.decimalInt (time.fdiv nanosPerSecond)
  headers := (configured.insert Headers.originator host).insert Headers.subject subject

/-- The seconds in the body, if it holds a signed 64-bit integer. -/
def timestamp? (m : Message) : Option Int := Text.int64? m.body.toList

/-- The body in bytes. -/
def payload (m : Message) : Bytes := utf8 m.body

/-- The headers of a heartbeat, by name. -/
theorem get?_headers_stamp (subject host : String) (configured : Headers) (time : Int)
    (name : String) :
    (stamp subject host configured time).headers.get? name =
      if name = Headers.originator then some host
      else if name = Headers.subject then some subject
      else configured.get? name := by
  have hne : Headers.subject ≠ Headers.originator := by decide
  simp only [stamp, Table.get?_insert]
  by_cases h : name = Headers.originator
  · subst h; simp [hne]
  · by_cases h' : name = Headers.subject
    · subst h'; simp [h]
    · simp [h, h', Ne.symm h, Ne.symm h']

end Message

end Tenure
