import Tenure.Error
import Tenure.Heartbeat.Headers

/-!
# Configuration

A configuration names the subjects to publish heartbeats on, each with its interval and headers,
and says whether publication depends on winning an election. Durations are kept as written and
read on demand; `Config.check` reads every one that is going to be used.
-/

namespace Tenure

/-- A subject to publish heartbeats on. -/
structure SubjectSettings where
  /-- The subject. -/
  name : String
  /-- The time between heartbeats, as written. -/
  interval : String
  /-- Headers for this subject alone. -/
  headers : Headers

/-- How leadership is contested. -/
structure ElectionSettings where
  /-- The election's name, shared by all contenders. -/
  name : String := "heartbeat"
  /-- The key that is contended for. -/
  key : String := "leader"
  /-- The lease, as written. -/
  ttl : String := "30s"
  /-- The time between campaigns, as written. -/
  campaignInterval? : Option String := none

/-- The settings of a heartbeat publisher. -/
structure Config where
  /-- Whether only the winner of the election publishes. -/
  leaderElection : Bool := false
  /-- The address of the transport. -/
  url : String := ""
  /-- Headers of every heartbeat. -/
  headers : Headers := .empty
  /-- The subjects, in order. -/
  subjects : List SubjectSettings := []
  /-- How leadership is contested. -/
  election : ElectionSettings := {}

/-- The time between heartbeats of a subject, which must not be zero. -/
def SubjectSettings.period (s : SubjectSettings) : Except ConfigFault Duration :=
  match Duration.parse s.interval with
  | .error fault => .error (.subjectInterval s.name fault)
  | .ok d => if d.nanos = 0 then .error (.zeroSubjectInterval s.name) else .ok d

/-- Whether the name of a subject has nothing but blanks. -/
def SubjectSettings.isBlank (s : SubjectSettings) : Bool := (Text.trim s.name.toList).isEmpty

namespace ElectionSettings

/-- Reads a duration of the election. -/
def read (text : String) : Except ConfigFault Duration :=
  match Duration.parse text with
  | .error fault => .error (.duration fault)
  | .ok d => .ok d

/-- The lease. -/
def lease (s : ElectionSettings) : Except ConfigFault Duration := read s.ttl

/-- The time between campaigns: half the lease, unless it is set. -/
def campaignPeriod (s : ElectionSettings) : Except ConfigFault Duration :=
  match s.campaignInterval? with
  | some text => read text
  | none => do return (← s.lease).half

end ElectionSettings

namespace Config

/-- Checks one subject: its name first, then its interval. -/
def checkSubject (s : SubjectSettings) : Except ConfigFault Unit :=
  if s.isBlank then .error .blankSubject
  else match s.period with
    | .error fault => .error fault
    | .ok _ => .ok ()

/-- Checks the election if publication depends on it: the lease first, then the interval. -/
def checkElection (c : Config) : Except ConfigFault Unit :=
  if c.leaderElection then do
    let _ ← c.election.lease
    let _ ← c.election.campaignPeriod
    return ()
  else .ok ()

/-- Checks that there is a subject, every subject in order, and the election. -/
def check (c : Config) : Except ConfigFault Unit :=
  if c.subjects.isEmpty then .error .noSubjects
  else do
    c.subjects.forM checkSubject
    c.checkElection

end Config

end Tenure
