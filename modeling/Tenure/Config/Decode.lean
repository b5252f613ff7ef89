import Tenure.Config.Basic
import Tenure.Toml.Value

/-!
# Configurations in documents

The rows of a document are read in their order, and the first fault ends the reading; fields that
are still missing are looked for at the end, in the order of the settings. Rows that name no
setting are passed over. The settings of a subject or of the election may also be given as an array
of their fields, without those at the end that have a default.

A date or time reads as a table with its text in one row.
-/

namespace Tenure

namespace Toml.Value

/-- What a value is called where something else belongs. -/
def found : Value → Found
  | .string s => .string s
  | .integer n => .integer n
  | .float x => .float x
  | .boolean b => .boolean b
  | .datetime _ | .table _ _ => .map
  | .array _ | .tables _ => .sequence

/-- The key of the text of a date or time. -/
def datetimeKey : String := "$__toml_private_datetime"

/-- The rows of a value that has some. -/
def rows? : Value → Option Rows
  | .table _ rows => some rows
  | .datetime d => some [(datetimeKey, .string d.toText)]
  | _ => none

/-- The elements of a value that has some. -/
def elements? : Value → Option (List Value)
  | .array elements | .tables elements => some elements
  | _ => none

/-- The truth value. -/
def toBool : Value → Except DocumentFault Bool
  | .boolean b => .ok b
  | v => .error (.invalidType v.found .boolean)

/-- The text. -/
def toText : Value → Except DocumentFault String
  | .string s => .ok s
  | v => .error (.invalidType v.found .string)

/-- A table of texts. -/
def toHeaders (v : Value) : Except DocumentFault Headers :=
  match v.rows? with
  | some rows => rows.foldlM (fun h r => do return h.insert r.1 (← r.2.toText)) .empty
  | none => .error (.invalidType v.found .map)

end Toml.Value

open Toml (Rows Value)

/-- The settings of a subject as far as they were read. -/
structure SubjectDraft where
  /-- The subject. -/
  name? : Option String := none
  /-- Its interval. -/
  interval? : Option String := none
  /-- Its headers. -/
  headers? : Option Headers := none

namespace SubjectDraft

/-- Reads one row. -/
def read (d : SubjectDraft) (row : String × Value) : Except DocumentFault SubjectDraft :=
  match row.1 with
  | "name" => do return { d with name? := some (← row.2.toText) }
  | "interval" => do return { d with interval? := some (← row.2.toText) }
  | "headers" => do return { d with headers? := some (← row.2.toHeaders) }
  | _ => .ok d

/-- The settings, if no field without a default is missing. -/
def finish (d : SubjectDraft) : Except DocumentFault SubjectSettings :=
  match d.name?, d.interval? with
  | none, _ => .error (.missingField "name")
  | _, none => .error (.missingField "interval")
  | some name, some interval => .ok ⟨name, interval, d.headers?.getD .empty⟩

end SubjectDraft

/-- The settings of a subject. -/
def SubjectSettings.ofValue (v : Value) : Except DocumentFault SubjectSettings :=
  match v.rows?, v.elements? with
  | some rows, _ => do (← rows.foldlM SubjectDraft.read {}).finish
  | none, some (name :: rest) => do
    let name ← name.toText
    match rest with
    | [] => .error .tooShort
    | interval :: rest => do
      let interval ← interval.toText
      match rest with
      | [] => .ok ⟨name, interval, .empty⟩
      | headers :: _ => do return ⟨name, interval, ← headers.toHeaders⟩
  | none, some [] => .error .tooShort
  | none, none => .error (.invalidType v.found .subject)

namespace ElectionSettings

/-- Reads one row. -/
def readRow (s : ElectionSettings) (row : String × Value) : Except DocumentFault ElectionSettings :=
  match row.1 with
  | "name" => do return { s with name := ← row.2.toText }
  | "key" => do return { s with key := ← row.2.toText }
  | "ttl" => do return { s with ttl := ← row.2.toText }
  | "campaign_interval" => do return { s with campaignInterval? := some (← row.2.toText) }
  | _ => .ok s

/-- The settings of the election. -/
def ofValue (v : Value) : Except DocumentFault ElectionSettings :=
  match v.rows?, v.elements? with
  | some rows, _ => rows.foldlM readRow {}
  | none, some elements =>
    (["name", "key", "ttl", "campaign_interval"].zip elements).foldlM readRow {}
  | none, none => .error (.invalidType v.found .election)

end ElectionSettings

namespace Config

/-- Reads one row. -/
def readRow (c : Config) (row : String × Value) : Except DocumentFault Config :=
  match row.1 with
  | "leader_election" => do return { c with leaderElection := ← row.2.toBool }
  | "url" => do return { c with url := ← row.2.toText }
  | "headers" => do return { c with headers := ← row.2.toHeaders }
  | "subjects" =>
    match row.2.elements? with
    | some elements => do return { c with subjects := ← elements.mapM SubjectSettings.ofValue }
    | none => .error (.invalidType row.2.found .sequence)
  | "election" => do return { c with election := ← ElectionSettings.ofValue row.2 }
  | _ => .ok c

/-- The configuration in a document. -/
def ofRows (rows : Rows) : Except DocumentFault Config := rows.foldlM readRow {}

end Config

end Tenure
