import Tenure.Toml.Lexis

/-!
# Texts of a TOML document

A text stands between double quotes, with escapes, or between apostrophes, as it is. Tripled
delimiters let it run over several lines; then up to two delimiters may stand right before the
closing three, and the first line break does not count if it comes at once.
-/

namespace Tenure.Toml

/-- The character of an escape of one letter. -/
def escape? : Char → Option Char
  | 'b' => some '\x08'
  | 't' => some '\t'
  | 'n' => some '\n'
  | 'f' => some '\x0c'
  | 'r' => some '\r'
  | '"' => some '"'
  | '\\' => some '\\'
  | _ => none

/-- The character with a code in hexadecimal digits. -/
def coded? (cs : List Char) : Option Char :=
  (ofDigitsIn? 16 cs).bind fun n => if n.isValidChar then some (Char.ofNat n) else none

/-- A character after a backslash, which is already taken. -/
def escaped? : Reader Char
  | 'u' :: a :: b :: c :: d :: cs => (coded? [a, b, c, d]).map (·, cs)
  | 'U' :: a :: b :: c :: d :: e :: f :: g :: h :: cs =>
    (coded? [a, b, c, d, e, f, g, h]).map (·, cs)
  | c :: cs => (escape? c).map (·, cs)
  | [] => none

/-- The rest of a text between double quotes on one line. `acc` holds what was read, last first.
The fuel bounds the characters of the text. -/
def basicRest : Nat → List Char → Reader String
  | 0, _, _ => none
  | _ + 1, acc, '"' :: cs => some (String.ofList acc.reverse, cs)
  | fuel + 1, acc, '\\' :: cs => (escaped? cs).bind fun (c, rest) => basicRest fuel (c :: acc) rest
  | fuel + 1, acc, c :: cs => if isInline c then basicRest fuel (c :: acc) cs else none
  | _ + 1, _, [] => none

/-- The rest of a text between apostrophes on one line. -/
def literalRest (acc : List Char) : Reader String
  | '\'' :: cs => some (String.ofList acc.reverse, cs)
  | c :: cs => if isInline c then literalRest (c :: acc) cs else none
  | [] => none

/-- Drops blanks and line breaks. -/
def skipLines : List Char → List Char
  | '\r' :: '\n' :: cs => skipLines cs
  | c :: cs => if isSpace c || c = '\n' then skipLines cs else c :: cs
  | [] => []

/-- The rest after a line break that a backslash, already taken, joins to the next line: all blanks
and line breaks up to the next character. -/
def joinedLine? (cs : List Char) : Option (List Char) :=
  (newline? (skipSpace cs)).map skipLines

/-- The delimiters that close a text of several lines: three, and up to two of its own in front. -/
def closing? (quote : Char) (cs : List Char) : Option (List Char × List Char) :=
  let run := (cs.takeWhile (· = quote)).length
  if run < 3 then none
  else
    let own := Nat.min (run - 3) 2
    some (List.replicate own quote, cs.drop (own + 3))

/-- The rest of a text between tripled double quotes. -/
def basicLinesRest : Nat → List Char → Reader String
  | 0, _, _ => none
  | fuel + 1, acc, cs =>
    match closing? '"' cs with
    | some (own, rest) => some (String.ofList (acc.reverse ++ own), rest)
    | none =>
      match cs with
      | '\\' :: cs =>
        match joinedLine? cs with
        | some rest => basicLinesRest fuel acc rest
        | none => (escaped? cs).bind fun (c, rest) => basicLinesRest fuel (c :: acc) rest
      | '\r' :: '\n' :: cs => basicLinesRest fuel ('\n' :: acc) cs
      | c :: cs => if isInline c || c = '\n' then basicLinesRest fuel (c :: acc) cs else none
      | [] => none

/-- The rest of a text between tripled apostrophes. -/
def literalLinesRest : Nat → List Char → Reader String
  | 0, _, _ => none
  | fuel + 1, acc, cs =>
    match closing? '\'' cs with
    | some (own, rest) => some (String.ofList (acc.reverse ++ own), rest)
    | none =>
      match cs with
      | '\r' :: '\n' :: cs => literalLinesRest fuel ('\n' :: acc) cs
      | c :: cs => if isInline c || c = '\n' then literalLinesRest fuel (c :: acc) cs else none
      | [] => none

/-- Drops a line break in front. -/
def skipNewline (cs : List Char) : List Char := (newline? cs).getD cs

/-- A text on one line, from its opening delimiter on. -/
def quotedLine? : Reader String
  | '"' :: cs => basicRest (cs.length + 1) [] cs
  | '\'' :: cs => literalRest [] cs
  | _ => none

/-- A text, from its opening delimiter on. -/
def quoted? : Reader String
  | '"' :: '"' :: '"' :: cs => basicLinesRest (cs.length + 1) [] (skipNewline cs)
  | '\'' :: '\'' :: '\'' :: cs => literalLinesRest (cs.length + 1) [] (skipNewline cs)
  | cs => quotedLine? cs

end Tenure.Toml
