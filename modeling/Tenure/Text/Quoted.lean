import Tenure.Text.Hidden

/-!
# Quoted text

A quoted text stands between double quotes. The quote and the backslash inside it are written with
a backslash before them, five control characters by their usual letters, and every other hidden or
combining character by its code in lower-case hexadecimal digits between braces.
-/

namespace Tenure.Text

/-- The written form of a character inside a quoted text. -/
def escape (c : Char) : List Char :=
  if c = '\x00' then ['\\', '0']
  else if c = '\t' then ['\\', 't']
  else if c = '\n' then ['\\', 'n']
  else if c = '\r' then ['\\', 'r']
  else if c = '"' then ['\\', '"']
  else if c = '\\' then ['\\', '\\']
  else if isHidden c then ['\\', 'u', '\x7b'] ++ Nat.toDigits 16 c.toNat ++ ['\x7d']
  else [c]

/-- A text between double quotes. -/
def quote (text : String) : String :=
  String.ofList (['"'] ++ text.toList.flatMap escape ++ ['"'])

end Tenure.Text
