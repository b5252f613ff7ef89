import Tenure.Toml.Lexis
import Tenure.Toml.Value

/-!
# Numbers, truth values, dates and times of a TOML document

A scalar without delimiters is a word: a run of letters, digits and the characters `_`, `+`, `-`,
`.` and `:`. The whole word has to be one scalar.
-/

namespace Tenure.Toml

/-- The characters of a word. -/
def isWordChar (c : Char) : Bool :=
  c.isAlphanum || c = '_' || c = '+' || c = '-' || c = '.' || c = ':'

/-- Digits with single underscores between them, without the underscores. -/
def digitGroups? (isDigit : Char → Bool) : List Char → Option (List Char)
  | [] => none
  | [c] => if isDigit c then some [c] else none
  | c :: '_' :: cs => if isDigit c then (digitGroups? isDigit cs).map (c :: ·) else none
  | c :: cs => if isDigit c then (digitGroups? isDigit cs).map (c :: ·) else none

/-- Splits off a sign; true stands for minus. -/
def sign : List Char → Bool × List Char
  | '-' :: cs => (true, cs)
  | '+' :: cs => (false, cs)
  | cs => (false, cs)

/-- Decimal digits without a needless zero in front. -/
def wholeDigits? (cs : List Char) : Option (List Char) :=
  match digitGroups? Text.isDigit cs with
  | some ('0' :: _ :: _) => none
  | r => r

/-- An integer in another base, after its mark. -/
def based? (base : Nat) (cs : List Char) : Option Int :=
  let isDigit (c : Char) : Bool := ((hexValue? c).filter (· < base)).isSome
  ((digitGroups? isDigit cs).bind (ofDigitsIn? base)).map Int.ofNat

/-- An integer of any range. -/
def integer? : List Char → Option Int
  | '0' :: 'x' :: cs => based? 16 cs
  | '0' :: 'o' :: cs => based? 8 cs
  | '0' :: 'b' :: cs => based? 2 cs
  | cs =>
    let (negative, ds) := sign cs
    ((wholeDigits? ds).bind Text.ofDigits?).map fun n => if negative then -(n : Int) else n

/-- The magnitude of `coefficient · 10 ^ power`. Far outside the range it is not computed. -/
def scientific (coefficient : Nat) (power : Int) : Magnitude :=
  if coefficient = 0 then .finite 0
  else if 400 < power then .infinite
  else if ((Text.digits coefficient).length : Int) + power < -400 then .finite 0
  else Magnitude.Scientific.read ⟨coefficient, power⟩

/-- An exponent, after its mark. -/
def exponent? (cs : List Char) : Option Int :=
  let (negative, ds) := sign cs
  ((digitGroups? Text.isDigit ds).bind Text.ofDigits?).map fun n =>
    if negative then -(n : Int) else n

/-- Whether a character marks an exponent. -/
def isExponentMark (c : Char) : Bool := c = 'e' || c = 'E'

/-- The magnitude of a number with a fraction, an exponent or both. -/
def floatMagnitude? (cs : List Char) : Option Magnitude := do
  let mantissa := cs.takeWhile fun c => !isExponentMark c
  let power ← match cs.dropWhile fun c => !isExponentMark c with
    | [] => if mantissa.contains '.' then some 0 else none
    | _ :: e => exponent? e
  let whole ← wholeDigits? (mantissa.takeWhile (· ≠ '.'))
  let fraction ← match mantissa.dropWhile (· ≠ '.') with
    | [] => some []
    | _ :: f => digitGroups? Text.isDigit f
  let coefficient ← Text.ofDigits? (whole ++ fraction)
  return scientific coefficient (power - fraction.length)

/-- A floating-point number. A number beyond the greatest finite one is refused, and counts as
minus infinity when it is negative. -/
def float? (cs : List Char) : Option Binary64 :=
  let (negative, rest) := sign cs
  if rest = ['i', 'n', 'f'] then some (.signed negative .infinite)
  else if rest = ['n', 'a', 'n'] then some .nan
  else (floatMagnitude? rest).bind fun m =>
    if m = .infinite ∧ !negative then none else some (.signed negative m)

/-- The number of two digits, if it is in a range. -/
def twoDigits? (lo hi : Nat) (a b : Char) : Option Nat :=
  (Text.ofDigits? [a, b]).filter fun n => lo ≤ n && n ≤ hi

/-- The number of days in a month. -/
def daysIn (year month : Nat) : Nat :=
  if month = 2 then if year % 4 = 0 ∧ (year % 100 ≠ 0 ∨ year % 400 = 0) then 29 else 28
  else if month = 4 ∨ month = 6 ∨ month = 9 ∨ month = 11 then 30
  else 31

/-- A date. -/
def date? : Reader Date
  | a :: b :: c :: d :: '-' :: e :: f :: '-' :: g :: h :: cs => do
    let year ← Text.ofDigits? [a, b, c, d]
    let month ← twoDigits? 1 12 e f
    let day ← twoDigits? 1 (daysIn year month) g h
    return (⟨year, month, day⟩, cs)
  | _ => none

/-- The nanoseconds of a fraction of a second; digits beyond the ninth do not count. -/
def fractionNanos (ds : List Char) : Nat :=
  let kept := ds.take 9
  (Text.ofDigits? (kept ++ List.replicate (9 - kept.length) '0')).getD 0

/-- A time of day. -/
def time? : Reader Time
  | a :: b :: ':' :: c :: d :: ':' :: e :: f :: cs => do
    let hour ← twoDigits? 0 23 a b
    let minute ← twoDigits? 0 59 c d
    let second ← twoDigits? 0 60 e f
    match cs with
    | '.' :: cs =>
      let ds := cs.takeWhile Text.isDigit
      if ds.isEmpty then none
      else some (⟨hour, minute, second, fractionNanos ds⟩, cs.dropWhile Text.isDigit)
    | cs => some (⟨hour, minute, second, 0⟩, cs)
  | _ => none

/-- An offset that takes up the rest of a word, or none at its end. -/
def offset? : List Char → Option (Option Offset)
  | [] => some none
  | ['Z'] | ['z'] => some (some .zulu)
  | [s, a, b, ':', c, d] =>
    if s = '+' ∨ s = '-' then do
      let hours ← twoDigits? 0 23 a b
      let minutes ← twoDigits? 0 59 c d
      return some (.fixed (s = '-') hours minutes)
    else none
  | _ => none

/-- A time of day and perhaps an offset that take up the rest of a word. -/
def timeOn? (date : Date) (cs : List Char) : Option Datetime := do
  let (time, rest) ← time? cs
  let offset ← offset? rest
  return ⟨some date, some time, offset⟩

/-- A date, a time or both that take up a whole word. -/
def datetime? (cs : List Char) : Option Datetime :=
  match date? cs with
  | some (date, []) => some ⟨some date, none, none⟩
  | some (date, c :: rest) => if c = 'T' ∨ c = 't' then timeOn? date rest else none
  | none =>
    match time? cs with
    | some (time, []) => some ⟨none, some time, none⟩
    | _ => none

/-- The scalar that a word is. -/
def word? (cs : List Char) : Option Value :=
  if cs = ['t', 'r', 'u', 'e'] then some (.boolean true)
  else if cs = ['f', 'a', 'l', 's', 'e'] then some (.boolean false)
  else match datetime? cs with
    | some d => some (.datetime d)
    | none =>
      match integer? cs with
      | some n => if Text.fitsInt64 n then some (.integer n) else none
      | none => (float? cs).map .float

/-- A scalar without delimiters. A day may be joined to its time by a blank. -/
def scalar? : Reader Value := fun cs =>
  let word := cs.takeWhile isWordChar
  let rest := cs.dropWhile isWordChar
  match date? word, rest with
  | some (date, []), ' ' :: c :: more =>
    if Text.isDigit c then
      let next := (c :: more).takeWhile isWordChar
      (timeOn? date next).map fun d => (.datetime d, (c :: more).dropWhile isWordChar)
    else some (.datetime ⟨some date, none, none⟩, rest)
  | _, _ => (word? word).map (·, rest)

end Tenure.Toml
