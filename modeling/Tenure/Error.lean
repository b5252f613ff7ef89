import Tenure.Duration.Parse
import Tenure.Duration.Text
import Tenure.Number.Shortest

/-!
# Errors

Every refusal has a cause, and each cause has one wording. Causes are grouped by what they blame:
a lease and its renewal period, the terms of an election, the shape of a configuration document,
the configuration as a whole. `Error.message` is the wording of an error at the library's edge.
-/

namespace Tenure

/-- Why a lease and a campaign interval do not go together. -/
inductive LeaseFault where
  /-- The lease is shorter than the least accepted one. -/
  | tooShort (ttl least : Duration)
  /-- The interval is zero or leaves too little of the lease. -/
  | misfit (interval ttl : Duration)
deriving DecidableEq

/-- The fault in words. -/
def LeaseFault.message : LeaseFault → String
  | .tooShort ttl least =>
    "lease TTL " ++ ttl.toText ++ " is shorter than the minimum of " ++ least.toText
  | .misfit interval ttl =>
    "campaign interval " ++ interval.toText ++
      " must be positive and at most 75% of the lease TTL " ++ ttl.toText

/-- Why an election cannot be contested on the given terms. -/
inductive ElectionFault where
  /-- The election has no name. -/
  | noName
  /-- There is no key to contend for. -/
  | noKey
  /-- There is no store to contend in. -/
  | noBucket
  /-- The campaigns would follow each other without a pause. -/
  | zeroInterval
  /-- The lease and the interval do not go together. -/
  | lease (fault : LeaseFault)
deriving DecidableEq

/-- The fault in words. -/
def ElectionFault.message : ElectionFault → String
  | .noName => "election name is required"
  | .noKey => "election key is required"
  | .noBucket => "a key-value bucket is required for leader election"
  | .zeroInterval => "campaign interval must be positive"
  | .lease fault => fault.message

/-- What stands in a document where something else belongs. -/
inductive Found where
  /-- An integer. -/
  | integer (n : Int)
  /-- A floating-point number. -/
  | float (x : Binary64)
  /-- A truth value. -/
  | boolean (b : Bool)
  /-- A text. -/
  | string (s : String)
  /-- An array. -/
  | sequence
  /-- A table, or a date or time. -/
  | map
deriving DecidableEq

/-- The finding in words. -/
def Found.message : Found → String
  | .integer n => "integer `" ++ Text.decimalInt n ++ "`"
  | .float x => "floating point `" ++ x.render ++ "`"
  | .boolean b => "boolean `" ++ (if b then "true" else "false") ++ "`"
  | .string s => "string " ++ Text.quote s
  | .sequence => "sequence"
  | .map => "map"

/-- What belongs at a place of a document. -/
inductive Expected where
  /-- A truth value. -/
  | boolean
  /-- A text. -/
  | string
  /-- A table of texts. -/
  | map
  /-- An array. -/
  | sequence
  /-- The settings of one subject. -/
  | subject
  /-- The settings of the election. -/
  | election
deriving DecidableEq

/-- The expectation in words. -/
def Expected.message : Expected → String
  | .boolean => "a boolean"
  | .string => "a string"
  | .map => "a map"
  | .sequence => "a sequence"
  | .subject => "struct SubjectConfig"
  | .election => "struct ElectionConfig"

/-- Why a document is no configuration. -/
inductive DocumentFault where
  /-- It breaks the rules of the document format. -/
  | malformed
  /-- A field without a default is absent. -/
  | missingField (name : String)
  /-- A field holds a value of another type. -/
  | invalidType (found : Found) (expected : Expected)
  /-- Settings given as an array lack an element without a default. -/
  | tooShort
deriving DecidableEq

/-- The fault in words. Only an absent field and a value of another type are named. -/
def DocumentFault.message : DocumentFault → String
  | .malformed | .tooShort => "Failed to parse config"
  | .missingField name => "Failed to parse config: missing field `" ++ name ++ "`"
  | .invalidType found expected =>
    "Failed to parse config: invalid type: " ++ found.message ++ ", expected " ++ expected.message

/-- Why a configuration is refused. -/
inductive ConfigFault where
  /-- The document cannot be read. -/
  | document (fault : DocumentFault)
  /-- No subject is configured. -/
  | noSubjects
  /-- A subject's name is blank. -/
  | blankSubject
  /-- A subject's interval is no duration. -/
  | subjectInterval (subject : String) (fault : DurationFault)
  /-- A subject's interval is zero. -/
  | zeroSubjectInterval (subject : String)
  /-- A duration of the election is none. -/
  | duration (fault : DurationFault)
  /-- The election cannot be contested. -/
  | election (fault : ElectionFault)
  /-- A cause that the caller states. -/
  | stated (text : String)
deriving DecidableEq

/-- The fault in words. -/
def ConfigFault.message : ConfigFault → String
  | .document fault => fault.message
  | .noSubjects => "at least one heartbeat subject is required"
  | .blankSubject => "heartbeat subject name cannot be empty"
  | .subjectInterval subject fault => "subject " ++ subject ++ ": " ++ fault.message
  | .zeroSubjectInterval subject => "subject " ++ subject ++ ": interval must be positive"
  | .duration fault => fault.message
  | .election fault => fault.message
  | .stated text => text

/-- Why something cannot be done now. -/
inductive StateFault where
  /-- The publisher of this replicator was started before. -/
  | alreadyRunning (replicator : String)
  /-- A cause that the caller states. -/
  | stated (text : String)
deriving DecidableEq

/-- The fault in words. -/
def StateFault.message : StateFault → String
  | .alreadyRunning replicator => "heartbeat publisher " ++ replicator ++ " is already running"
  | .stated text => text

/-- Why something cannot be set up. -/
inductive SetupFault where
  /-- Log output has a receiver already. -/
  | logReceiverInPlace
  /-- A cause that the caller states. -/
  | stated (text : String)
deriving DecidableEq

/-- The fault in words. -/
def SetupFault.message : SetupFault → String
  | .logReceiverInPlace =>
    "Failed to initialise tracing: a global default trace dispatcher has already been set"
  | .stated text => text

/-- Why a file cannot be read. -/
inductive FileFault where
  /-- There is no file of that name. -/
  | missing
  /-- The name is a directory's. -/
  | directory
  /-- The bytes are no UTF-8 text. -/
  | encoding
  /-- A cause that the caller states. -/
  | stated (text : String)
deriving DecidableEq

/-- The fault in words. -/
def FileFault.message : FileFault → String
  | .missing => "No such file or directory (os error 2)"
  | .directory => "Is a directory (os error 21)"
  | .encoding => "stream did not contain valid UTF-8"
  | .stated text => text

/-- What a call of the library can fail with. -/
inductive Error where
  /-- The configuration or the terms of an election are refused. -/
  | config (fault : ConfigFault)
  /-- Something cannot be set up. -/
  | setup (fault : SetupFault)
  /-- The metrics cannot be written out. -/
  | metrics (text : String)
  /-- The call does not fit the state of its receiver. -/
  | invalidState (fault : StateFault)
  /-- A file cannot be read. -/
  | io (fault : FileFault)
  /-- Arithmetic on time left its range. -/
  | overflow (overflow : Overflow)
deriving DecidableEq

namespace Error

/-- The error in words. -/
def message : Error → String
  | .config fault => "Configuration error: " ++ fault.message
  | .setup fault => "Setup error: " ++ fault.message
  | .metrics text => "Metrics error: " ++ text
  | .invalidState fault => "Invalid state: " ++ fault.message
  | .io fault => "IO error: " ++ fault.message
  | .overflow o => o.message

/-- Whether the error blames the configuration. -/
def isConfig : Error → Bool
  | .config _ => true
  | _ => false

end Error

/-- Continues after arithmetic on time, whose overflow is an error of the caller. -/
def Overflow.lift {α : Type} : Except Overflow α → Except Error α
  | .ok a => .ok a
  | .error o => .error (.overflow o)

end Tenure
