import Tenure.Toml.Quotation
import Tenure.Toml.Scalar
import Tenure.Toml.Tree

/-!
# Reading a TOML document

A document is read line by line: a line is blank, opens a table, or gives the value of a key.
Arrays and tables between delimiters nest to a limited depth. The readers below take a character at
least with every second unit of fuel, so twice the number of characters is always enough.
-/

namespace Tenure.Toml

/-- The characters of a key without quotes. -/
def isKeyChar (c : Char) : Bool := c.isAlphanum || c = '_' || c = '-'

/-- One part of a key. -/
def keyPart? : Reader String := fun cs =>
  match cs with
  | '"' :: _ | '\'' :: _ => quotedLine? cs
  | _ =>
    let part := cs.takeWhile isKeyChar
    if part.isEmpty then none else some (String.ofList part, cs.dropWhile isKeyChar)

/-- The parts of a key, with points between them and blanks around each. -/
def keyParts : Nat → Reader (List String)
  | 0, _ => none
  | fuel + 1, cs => do
    let (part, rest) ← keyPart? (skipSpace cs)
    match skipSpace rest with
    | '.' :: rest =>
      let (parts, rest) ← keyParts fuel rest
      return (part :: parts, rest)
    | rest => return ([part], rest)

/-- A key, with the blanks around it. -/
def key? : Reader (List String) := fun cs => do
  let (parts, rest) ← keyParts (cs.length + 1) cs
  if parts.length < depthLimit then return (parts, rest) else none

mutual

/-- A value. -/
def value : Nat → Nat → Reader Value
  | 0, _, _ => none
  | fuel + 1, depth, cs =>
    match cs with
    | '"' :: _ | '\'' :: _ => (quoted? cs).map fun (s, rest) => (.string s, rest)
    | '[' :: rest => do
      if depth + 1 < depthLimit then
        let (elements, rest) ← elements fuel (depth + 1) rest
        return (.array elements, rest)
      else none
    | '{' :: rest => do
      if depth + 1 < depthLimit then
        let (rows, rest) ← fields fuel (depth + 1) (skipSpace rest)
        return (.table .inline rows, rest)
      else none
    | _ => scalar? cs

/-- The elements of an array up to its closing bracket. -/
def elements : Nat → Nat → Reader (List Value)
  | 0, _, _ => none
  | fuel + 1, depth, cs => do
    let cs ← skipGap? false cs
    match cs with
    | ']' :: rest => return ([], rest)
    | _ =>
      let (v, rest) ← value fuel depth cs
      match ← skipGap? false rest with
      | ',' :: rest =>
        let (vs, rest) ← elements fuel depth rest
        return (v :: vs, rest)
      | ']' :: rest => return ([v], rest)
      | _ => none

/-- The rows of a table between braces, from its first character that is no blank. -/
def fields : Nat → Nat → Reader Rows
  | 0, _, _ => none
  | fuel + 1, depth, cs =>
    match cs with
    | '}' :: rest => some ([], rest)
    | _ => moreFields fuel depth [] cs

/-- At least one more row of a table between braces, added to those before it. -/
def moreFields : Nat → Nat → Rows → Reader Rows
  | 0, _, _, _ => none
  | fuel + 1, depth, rows, cs => do
    let (parts, rest) ← key? cs
    let name ← parts.getLast?
    let rest ← expect? '=' rest
    let (v, rest) ← value fuel depth (skipSpace rest)
    let rows ← addValue parts.dropLast name v .inline rows
    match skipSpace rest with
    | ',' :: rest => moreFields fuel depth rows rest
    | '}' :: rest => return (rows, rest)
    | _ => none

end

/-- Reads one line into a draft. -/
def line (d : Draft) : Reader Draft := fun cs =>
  match skipSpace cs with
  | '[' :: '[' :: rest => do
    let (parts, rest) ← key? rest
    let rest ← endOfLine? (← expect? ']' (← expect? ']' rest))
    return (← d.openElement parts, rest)
  | '[' :: rest => do
    let (parts, rest) ← key? rest
    let rest ← endOfLine? (← expect? ']' rest)
    return (← d.openTable parts, rest)
  | [] => some (d, [])
  | rest =>
    if rest.head? = some '#' ∨ (newline? rest).isSome then (endOfLine? rest).map (d, ·)
    else do
      let (parts, rest) ← key? rest
      let name ← parts.getLast?
      let rest ← expect? '=' rest
      let rest := skipSpace rest
      let (v, rest) ← value (2 * rest.length + 2) 0 rest
      let rest ← endOfLine? rest
      return (← d.add parts.dropLast name v, rest)

/-- Reads the lines of a document. -/
def lines : Nat → Draft → List Char → Option Draft
  | 0, _, _ => none
  | _ + 1, d, [] => some d
  | fuel + 1, d, cs => do
    let (d, rest) ← line d cs
    lines fuel d rest

/-- Drops a byte order mark. -/
def skipMark : List Char → List Char
  | '\ufeff' :: cs => cs
  | cs => cs

/-- Reads a document into the rows of its outermost table. -/
def parse (cs : List Char) : Option Rows := do
  let cs := skipMark cs
  let d ← lines (cs.length + 1) {} cs
  let d ← d.close
  return d.root

end Tenure.Toml
