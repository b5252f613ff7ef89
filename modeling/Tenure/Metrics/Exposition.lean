import Tenure.Metrics.Registry
import Tenure.Text.Decimal

/-!
# Metrics in text

The series are written family by family, in the order of the families' names; within a family they
stand in the order of their label values. Families without series are left out.
-/

namespace Tenure.Metrics

/-- A character of a label's value: the backslash, the quote and the line break are escaped. -/
def escapeLabel (c : Char) : List Char :=
  if c = '\\' then ['\\', '\\']
  else if c = '\n' then ['\\', 'n']
  else if c = '"' then ['\\', '"']
  else [c]

/-- A label. -/
def labelText (label : String × String) : String :=
  label.1 ++ "=\"" ++ String.ofList (label.2.toList.flatMap escapeLabel) ++ "\""

/-- The line of a series. -/
def seriesText (row : Series × Nat) : String :=
  row.1.family.name ++ "\x7b" ++ String.intercalate "," (row.1.labels.map labelText) ++ "\x7d " ++
    Text.decimal row.2 ++ "\n"

/-- The lines above a family. -/
def Family.heading (f : Family) : String :=
  "# HELP " ++ f.name ++ " " ++ f.help ++ "\n# TYPE " ++ f.name ++ " " ++
    (if f.isCounter then "counter" else "gauge") ++ "\n"

/-- Whether a series stands no later than another of its family: the values of their labels decide,
the first ones first. -/
def precedes (a b : Series × Nat) : Bool :=
  !(b.1.labels.map Prod.snd).lex (a.1.labels.map Prod.snd) fun x y => decide (x < y)

/-- A family with its series; nothing if there are none. -/
def Family.text (f : Family) (r : Registry) : String :=
  match ((r.toList.map Prod.snd).filter fun row => row.1.family = f).mergeSort precedes with
  | [] => ""
  | rows => f.heading ++ String.join (rows.map seriesText)

/-- All series in text. -/
def exposition (r : Registry) : String := String.join (Family.all.map fun f => f.text r)

end Tenure.Metrics
