/-!
# Placeholders for environment variables

A placeholder `${NAME}` stands for the value of a variable. The name starts with a capital letter
or an underscore and goes on with capital letters, digits and underscores. Placeholders are
searched from the left; each search goes on behind the placeholder that the last one found, so
inserted text is not searched. A placeholder whose variable is not set stays as it is.
-/

namespace Tenure.Text

/-- The values of the variables that are set. -/
abbrev Environment := String → Option String

/-- The characters a name can start with. -/
def isNameStart (c : Char) : Bool := ('A' ≤ c && c ≤ 'Z') || c = '_'

/-- The characters a name can go on with. -/
def isNameChar (c : Char) : Bool := isNameStart c || ('0' ≤ c && c ≤ '9')

/-- The name of the placeholder in front of the text, and what follows the placeholder. -/
def placeholder? : List Char → Option (List Char × List Char)
  | '$' :: '\x7b' :: c :: cs =>
    if isNameStart c then
      match cs.dropWhile isNameChar with
      | '\x7d' :: rest => some (c :: cs.takeWhile isNameChar, rest)
      | _ => none
    else none
  | _ => none

/-- The first placeholder of a text: what stands before it, its name, and what follows it. -/
def firstPlaceholder? : List Char → Option (List Char × List Char × List Char)
  | [] => none
  | c :: cs =>
    match placeholder? (c :: cs) with
    | some (name, rest) => some ([], name, rest)
    | none => (firstPlaceholder? cs).map fun (before, name, rest) => (c :: before, name, rest)

/-- The text that takes the place of a placeholder. -/
def valueOf (env : Environment) (name : List Char) : List Char :=
  match env (String.ofList name) with
  | some value => value.toList
  | none => ['$', '\x7b'] ++ name ++ ['\x7d']

/-- Replaces the first placeholders of a text, as many as there is fuel for. -/
def expandFirst (env : Environment) : Nat → List Char → List Char
  | 0, cs => cs
  | fuel + 1, cs =>
    match firstPlaceholder? cs with
    | none => cs
    | some (before, name, rest) => before ++ valueOf env name ++ expandFirst env fuel rest

/-- Replaces every placeholder of a text. There are fewer of them than characters. -/
def expand (env : Environment) (cs : List Char) : List Char := expandFirst env cs.length cs

end Tenure.Text
