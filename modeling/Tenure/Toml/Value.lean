import Tenure.Number.Shortest
import Tenure.Text.Decimal

/-!
# Values of a TOML document

A document is a table of values. A table remembers how it came about, since that decides what a
later line may still add to it. Rows keep the order of the document.
-/

namespace Tenure.Toml

/-- A day of the calendar. -/
structure Date where
  /-- The year. -/
  year : Nat
  /-- The month, from 1. -/
  month : Nat
  /-- The day of the month, from 1. -/
  day : Nat
deriving DecidableEq

/-- A time of day. -/
structure Time where
  /-- The hour. -/
  hour : Nat
  /-- The minute. -/
  minute : Nat
  /-- The second; 60 is a leap second. -/
  second : Nat
  /-- The nanosecond. -/
  nanos : Nat
deriving DecidableEq

/-- The distance from universal time. -/
inductive Offset where
  /-- Written as the letter Z. -/
  | zulu
  /-- Written as hours and minutes. -/
  | fixed (west : Bool) (hours minutes : Nat)
deriving DecidableEq

/-- A date, a time, or both. -/
structure Datetime where
  /-- The day. -/
  date? : Option Date
  /-- The time of day. -/
  time? : Option Time
  /-- The distance from universal time. -/
  offset? : Option Offset
deriving DecidableEq

/-- A number in at least so many digits. -/
def padded (width n : Nat) : String :=
  let ds := Text.digits n
  String.ofList (List.replicate (width - ds.length) '0' ++ ds)

/-- A date in text. -/
def Date.toText (d : Date) : String :=
  padded 4 d.year ++ "-" ++ padded 2 d.month ++ "-" ++ padded 2 d.day

/-- A time in text; its fraction has no trailing zeros. -/
def Time.toText (t : Time) : String :=
  let fraction := ((padded 9 t.nanos).toList.reverse.dropWhile (· = '0')).reverse
  padded 2 t.hour ++ ":" ++ padded 2 t.minute ++ ":" ++ padded 2 t.second ++
    (if t.nanos = 0 then "" else "." ++ String.ofList fraction)

/-- An offset in text. One of zero has a plus sign. -/
def Offset.toText : Offset → String
  | .zulu => "Z"
  | .fixed west hours minutes =>
    (if west && (hours ≠ 0 || minutes ≠ 0) then "-" else "+") ++
      padded 2 hours ++ ":" ++ padded 2 minutes

/-- A date and time in text. -/
def Datetime.toText (d : Datetime) : String :=
  let date := (d.date?.map Date.toText).getD ""
  let time := (d.time?.map Time.toText).getD ""
  let mark := if d.date?.isSome && d.time?.isSome then "T" else ""
  date ++ mark ++ time ++ (d.offset?.map Offset.toText).getD ""

/-- How a table came about. -/
inductive TableKind where
  /-- Under a header of its own, or the document itself. -/
  | header
  /-- On the way to the header of another table. -/
  | implied
  /-- On the way to the last part of a dotted key. -/
  | dotted
  /-- Between braces; nothing can be added to it. -/
  | inline
deriving DecidableEq

/-- A value of a document. -/
inductive Value where
  /-- A text. -/
  | string (s : String)
  /-- A signed 64-bit integer. -/
  | integer (n : Int)
  /-- A floating-point number. -/
  | float (x : Binary64)
  /-- A truth value. -/
  | boolean (b : Bool)
  /-- A date or time. -/
  | datetime (d : Datetime)
  /-- An array between brackets. -/
  | array (elements : List Value)
  /-- An array of tables, each under a doubled header. -/
  | tables (elements : List Value)
  /-- A table. -/
  | table (kind : TableKind) (rows : List (String × Value))

/-- The rows of a table, oldest first. -/
abbrev Rows := List (String × Value)

end Tenure.Toml
