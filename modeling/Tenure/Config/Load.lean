import Tenure.Config.Decode
import Tenure.Text.Placeholder
import Tenure.Toml.Document

/-!
# Loading a configuration

Placeholders are replaced in the whole text before it is read as a document, so a variable can
stand for any part of it. Only a configuration that passes its checks is loaded.
-/

namespace Tenure

/-- The outcome of reading a file. -/
inductive FileContent where
  /-- There is no file. -/
  | missing
  /-- The name is a directory's. -/
  | directory
  /-- What the file holds. -/
  | bytes (content : List UInt8)

/-- The text of a file. -/
def FileContent.text : FileContent → Except FileFault String
  | .missing => .error .missing
  | .directory => .error .directory
  | .bytes content =>
    match String.fromUTF8? content.toByteArray with
    | some s => .ok s
    | none => .error .encoding

namespace Config

/-- Reads a configuration from a document. -/
def read (text : List Char) : Except DocumentFault Config :=
  match Toml.parse text with
  | some rows => ofRows rows
  | none => .error .malformed

/-- Loads a configuration from a text with placeholders. -/
def load (env : Text.Environment) (text : String) : Except ConfigFault Config :=
  match read (Text.expand env text.toList) with
  | .error fault => .error (.document fault)
  | .ok c => do
    c.check
    return c

/-- Loads a configuration from a file. -/
def loadFile (env : Text.Environment) (file : FileContent) : Except Error Config :=
  match file.text with
  | .error fault => .error (.io fault)
  | .ok text =>
    match load env text with
    | .error fault => .error (.config fault)
    | .ok c => .ok c

end Config

end Tenure
