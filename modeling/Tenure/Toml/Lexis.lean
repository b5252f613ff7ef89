import Tenure.Text.Decimal

/-!
# Blanks, comments and characters of a TOML document

A reader takes a value from the front of the remaining characters, or fails.
-/

namespace Tenure.Toml

/-- Takes a value from the front of the characters and leaves the rest. -/
abbrev Reader (α : Type) := List Char → Option (α × List Char)

/-- The characters between the words of a line. -/
def isSpace (c : Char) : Bool := c = ' ' || c = '\t'

/-- The characters that a comment, or a text on one line, may hold: the tab and every character
that is not a control. -/
def isInline (c : Char) : Bool := c = '\t' || (0x20 ≤ c.toNat && c.toNat ≠ 0x7f)

/-- Drops the blanks in front. -/
def skipSpace (cs : List Char) : List Char := cs.dropWhile isSpace

/-- The rest after a line break. -/
def newline? : List Char → Option (List Char)
  | '\n' :: cs => some cs
  | '\r' :: '\n' :: cs => some cs
  | _ => none

/-- The rest after the end of a line: blanks, perhaps a comment, then a line break or the end of
the document. -/
def endOfLine? (cs : List Char) : Option (List Char) :=
  let rest := match skipSpace cs with
    | '#' :: r => r.dropWhile isInline
    | r => r
  if rest.isEmpty then some [] else newline? rest

/-- The rest after blanks, line breaks and comments. `inComment` tells whether a comment is open;
it has to end in a line break. -/
def skipGap? (inComment : Bool) : List Char → Option (List Char)
  | [] => if inComment then none else some []
  | '\n' :: cs => skipGap? false cs
  | '\r' :: '\n' :: cs => skipGap? false cs
  | c :: cs =>
    if inComment then if isInline c then skipGap? true cs else none
    else if isSpace c then skipGap? false cs
    else if c = '#' then skipGap? true cs
    else some (c :: cs)

/-- The rest after a given character. -/
def expect? (c : Char) : List Char → Option (List Char)
  | d :: cs => if d = c then some cs else none
  | [] => none

/-- The value of a hexadecimal digit. -/
def hexValue? (c : Char) : Option Nat :=
  if 'a' ≤ c ∧ c ≤ 'f' then some (c.toNat - 'a'.toNat + 10)
  else if 'A' ≤ c ∧ c ≤ 'F' then some (c.toNat - 'A'.toNat + 10)
  else Text.digitValue? c

/-- The value of digits in a base that none of them reaches. -/
def ofDigitsIn? (base : Nat) (cs : List Char) : Option Nat :=
  cs.foldlM (fun n c => (hexValue? c).bind fun d => if d < base then some (n * base + d) else none) 0

end Tenure.Toml
