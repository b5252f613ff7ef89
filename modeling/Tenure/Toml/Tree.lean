import Tenure.Table
import Tenure.Toml.Value

/-!
# Building the tables of a TOML document

A line of a document adds a row to the table that is open, or opens another table. What may be
added where depends on how a table came about:

* A dotted key passes only through tables that no header has opened, and ends in one that dotted
  keys have made.
* A header may open a table that was only implied so far, and every table once.
* A table between braces is closed for good.
-/

namespace Tenure.Toml

/-- How many parts a key may have, and how deep values may nest, less one. -/
def depthLimit : Nat := 80

/-- Walks from a table along a path, making the tables that are missing, and edits the table at its
end. Through an array of tables the path leads into the last one. -/
def descend {β : Type} (dotted : Bool) (edit : TableKind → Rows → Option (Rows × β)) :
    List String → TableKind → Rows → Option (Rows × β)
  | [], kind, rows => edit kind rows
  | key :: path, _, rows =>
    match Table.find? key rows with
    | none => do
      let kind := if dotted then TableKind.dotted else .implied
      let (sub, b) ← descend dotted edit path kind []
      return (Table.put key (.table kind sub) rows, b)
    | some (.table kind sub) =>
      if kind = .inline ∨ (dotted ∧ kind = .header) then none
      else do
        let (sub, b) ← descend dotted edit path kind sub
        return (Table.put key (.table kind sub) rows, b)
    | some (.tables elements) =>
      match elements.getLast? with
      | some (.table kind sub) => do
        let (sub, b) ← descend dotted edit path kind sub
        return (Table.put key (.tables (elements.dropLast ++ [.table kind sub])) rows, b)
      | _ => none
    | some _ => none

/-- Adds the value of a key to a table. The path holds the parts of the key before the last. -/
def addValue (path : List String) (key : String) (value : Value) (kind : TableKind) (rows : Rows) :
    Option Rows :=
  let edit (kind : TableKind) (rows : Rows) : Option (Rows × Unit) :=
    if (kind = .dotted) ↔ path.isEmpty then none
    else match Table.find? key rows with
      | some _ => none
      | none => some (Table.put key value rows, ())
  (descend true edit path kind rows).map Prod.fst

/-- A document in the making: the tables that are complete, and the one that is open. -/
structure Draft where
  /-- The rows of the document itself and of every complete table. -/
  root : Rows := []
  /-- The rows of the open table. -/
  current : Rows := []
  /-- Where the open table belongs; empty for the document itself. -/
  path : List String := []
  /-- Whether it belongs into an array of tables. -/
  inArray : Bool := false

namespace Draft

/-- Completes the open table. -/
def close (d : Draft) : Option Draft :=
  match d.path.getLast? with
  | none => some { root := d.current }
  | some key => do
    let table := Value.table .header d.current
    let edit (_ : TableKind) (rows : Rows) : Option (Rows × Unit) :=
      match Table.find? key rows with
      | some (.tables elements) =>
        if d.inArray then some (Table.put key (.tables (elements ++ [table])) rows, ()) else none
      | none =>
        let value := if d.inArray then .tables [table] else table
        some (Table.put key value rows, ())
      | some _ => none
    let (root, _) ← descend false edit d.path.dropLast .header d.root
    return { root := root }

/-- Opens the table under a header. One that was implied is taken out and goes on. -/
def openTable (path : List String) (d : Draft) : Option Draft := do
  let d ← d.close
  let key ← path.getLast?
  let edit (_ : TableKind) (rows : Rows) : Option (Rows × Rows) :=
    match Table.find? key rows with
    | none => some (rows, [])
    | some (.table .implied sub) => some (rows.filter fun r => r.1 ≠ key, sub)
    | some _ => none
  let (root, current) ← descend false edit path.dropLast .header d.root
  return { root := root, current := current, path := path, inArray := false }

/-- Opens the next table of an array of tables. -/
def openElement (path : List String) (d : Draft) : Option Draft := do
  let d ← d.close
  let key ← path.getLast?
  let edit (_ : TableKind) (rows : Rows) : Option (Rows × Unit) :=
    match Table.find? key rows with
    | none => some (Table.put key (.tables []) rows, ())
    | some (.tables _) => some (rows, ())
    | some _ => none
  let (root, _) ← descend false edit path.dropLast .header d.root
  return { root := root, current := [], path := path, inArray := true }

/-- Adds a value to the open table. -/
def add (path : List String) (key : String) (value : Value) (d : Draft) : Option Draft := do
  let current ← addValue path key value .header d.current
  return { d with current := current }

end Draft

end Tenure.Toml
