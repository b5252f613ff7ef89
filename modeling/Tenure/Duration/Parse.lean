import Tenure.Duration.Basic
import Tenure.Number.Magnitude
import Tenure.Text.Blank
import Tenure.Text.Decimal
import Tenure.Text.Quoted

/-!
# Reading durations

A written duration is a run of components, each a decimal number and a unit: `1h30m`, `1.5s`. The
text is cut into components first (`components`, which loses nothing and leaves nothing out of
order), then the components are added up from the left in binary64 arithmetic, and the sum is
rounded to whole nanoseconds.
-/

namespace Tenure

/-- Why a text is no duration. Each fault but the first shows the whole text. -/
inductive DurationFault where
  /-- Nothing but blanks. -/
  | empty
  /-- A minus sign in front. -/
  | negative (text : String)
  /-- A malformed number, or a total that is no count of nanoseconds. -/
  | invalid (text : String)
  /-- A number without a unit. -/
  | missingUnit (text : String)
  /-- A unit there is not. -/
  | unknownUnit (unit text : String)
deriving DecidableEq

/-- The fault in words. -/
def DurationFault.message : DurationFault → String
  | .empty => "empty duration"
  | .negative t => "negative duration " ++ Text.quote t
  | .invalid t => "invalid duration " ++ Text.quote t
  | .missingUnit t => "missing unit in duration " ++ Text.quote t
  | .unknownUnit u t => "unknown unit " ++ Text.quote u ++ " in duration " ++ Text.quote t

namespace Duration

/-- The characters a number is made of. -/
def isNumeral (c : Char) : Bool := Text.isDigit c || c == '.'

/-- A run of numerals and the run of other characters after it. -/
structure Component where
  /-- The numerals. -/
  number : List Char
  /-- What follows, up to the next numeral. -/
  unit : List Char
deriving DecidableEq

/-- Cuts a text where a run of other characters ends and a run of numerals begins. Only the first
component can lack a number. -/
def components : List Char → List Component
  | [] => []
  | c :: cs =>
    match isNumeral c, components cs with
    | true, [] => [⟨[c], []⟩]
    | true, k :: ks => ⟨c :: k.number, k.unit⟩ :: ks
    | false, ⟨[], u⟩ :: ks => ⟨[], c :: u⟩ :: ks
    | false, ks => ⟨[], [c]⟩ :: ks

/-- The nanoseconds in a unit. The two spellings of the micro sign are U+00B5 and U+03BC. -/
def unitNanos? : List Char → Option Nat
  | ['n', 's'] => some 1
  | ['u', 's'] => some 1000
  | ['\u00b5', 's'] => some 1000
  | ['\u03bc', 's'] => some 1000
  | ['m', 's'] => some 1000000
  | ['s'] => some 1000000000
  | ['m'] => some 60000000000
  | ['h'] => some 3600000000000
  | _ => none

/-- The value of digits with at most one point among them and at least one digit. -/
def number? (cs : List Char) : Option Magnitude :=
  let whole := cs.takeWhile (· ≠ '.')
  let fraction := (cs.dropWhile (· ≠ '.')).drop 1
  (Text.ofDigits? (whole ++ fraction)).map fun n => Magnitude.ofFraction n (Nat.pow 10 fraction.length)

/-- Adds a component to a total of nanoseconds. `text` is what a fault shows. -/
def addComponent (text : String) (total : Magnitude) (k : Component) :
    Except DurationFault Magnitude :=
  match number? k.number with
  | none => .error (.invalid text)
  | some value =>
    match unitNanos? k.unit with
    | some nanos => .ok (total.add (value.scale nanos))
    | none =>
      if k.unit.isEmpty then .error (.missingUnit text)
      else .error (.unknownUnit (String.ofList k.unit) text)

/-- The total of components, from the left. -/
def total (text : String) (ks : List Component) : Except DurationFault Magnitude :=
  ks.foldlM (addComponent text) (.finite 0)

/-- The greatest total that is accepted, `2⁶⁴` nanoseconds; it counts as one nanosecond less. -/
def parseLimit : Nat := 18446744073709551616

/-- Rounds a total to whole nanoseconds. -/
def ofTotal? (m : Magnitude) : Option Duration :=
  match m with
  | .infinite => none
  | .finite units =>
    if parseLimit * Magnitude.unitsPerOne < units then none
    else m.round?.bind fun n => ofNanos? (Nat.min n (parseLimit - 1))

/-- Removes one plus sign. -/
def dropSign : List Char → List Char
  | '+' :: cs => cs
  | cs => cs

/-- Reads a duration such as `500ms`, `1.5s` or `1h30m`. A bare `0` needs no unit. -/
def parse (text : String) : Except DurationFault Duration :=
  let cs := Text.trim text.toList
  if cs.isEmpty then .error .empty
  else if cs.head? = some '-' then .error (.negative text)
  else
    let body := dropSign cs
    if body = ['0'] then .ok zero
    else do
      let sum ← total text (components body)
      match ofTotal? sum with
      | some d => .ok d
      | none => .error (.invalid text)

end Duration

end Tenure
