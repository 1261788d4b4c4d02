import AutoDoc.Settings
import AutoDoc.Toml.Document
import AutoDoc.Tree.Access

/-!
# Configuration files

Settings may be given in a file at the root, in a table of one of two names. Trouble with the file
never stops a run: the defaults are used instead.
-/

namespace AutoDoc

inductive ConfigurationError where
  | unreadable (path : String) (error : OsError)
  | malformed (path : String)
deriving DecidableEq, Repr

/-- The text of a configuration error; what is wrong with a malformed file is not said. -/
def ConfigurationError.message : ConfigurationError → String
  | .unreadable path error => "failed to read config file " ++ path ++ ": " ++ error.message
  | .malformed path => "failed to parse config file " ++ path

namespace Settings

def fileName : String := "tugdoc.toml"

/-- The settings in a table, or in an array by position; further items of an array are passed
over. -/
def ofTable? : Json → Option Settings
  | .arr items => ofJson? (.arr (items.take fields.length))
  | j => ofJson? j

/-- The settings in a document. The table has one of two names, and not both. -/
def ofDocument? (document : Json) : Option Settings := do
  match ← Json.record? .lenient ["tugdoc", "blackdoc"] document with
  | [] => return {}
  | [(_, table)] => ofTable? table
  | _ => none

def load (top : Node) (path : String) : Except ConfigurationError Settings :=
  match top.readText path with
  | .error e => .error (.unreadable path e)
  | .ok text =>
    match (Toml.parse? text).bind ofDocument? with
    | some s => .ok s
    | none => .error (.malformed path)

/-- The settings of a root: those in its configuration file, or the defaults. -/
def ofRoot (top : Node) (root : String) : Settings :=
  match load top (Path.join root fileName) with
  | .ok s => s
  | .error _ => {}

end Settings

end AutoDoc
