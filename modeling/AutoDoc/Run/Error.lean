import AutoDoc.Configuration
import AutoDoc.Discovery
import AutoDoc.Json.Value

/-!
# Errors of a run

What can stop a run as a whole. Every error has a code, which is also the exit status of the
command, and is reported as one JSON object.
-/

namespace AutoDoc

inductive RunError where
  | invalidArguments (message : String)
  | unsupportedFileType (path : String)
  | fileNotFound (path : String)
  | apply (message : String) (path : Option String)
  | validationFailed (path : String)
  | configuration (message : String)
  | internal (message : String)
deriving DecidableEq, Repr

namespace RunError

/-- The code of an error: 2 for what the caller gave, 3 for files that are missing or of the wrong
kind, 4 for changes that failed, 5 for a result that is not valid, 10 for the unexpected. -/
def code : RunError → Nat
  | .invalidArguments _ => 2
  | .unsupportedFileType _ => 3
  | .fileNotFound _ => 3
  | .apply _ _ => 4
  | .validationFailed _ => 5
  | .configuration _ => 2
  | .internal _ => 10

def message : RunError → String
  | .invalidArguments message => "invalid arguments: " ++ message
  | .unsupportedFileType path =>
    "unsupported file type: " ++ path ++ " (expected a .py file)"
  | .fileNotFound path => "file not found: " ++ path
  | .apply message _ => "apply error: " ++ message
  | .validationFailed path => "validation failed: " ++ path
  | .configuration message => "configuration error: " ++ message
  | .internal message => "internal error: " ++ message

def path? : RunError → Option String
  | .unsupportedFileType path => some path
  | .fileNotFound path => some path
  | .validationFailed path => some path
  | .apply _ path => path
  | _ => none

def ofConfiguration (e : ConfigurationError) : RunError := .configuration e.message

def ofOs (e : OsError) : RunError := .apply ("IO error: " ++ e.message) none

def ofDiscovery : DiscoveryError → RunError
  | .notFound path => .fileNotFound path
  | .os e => ofOs e

def toJson (e : RunError) : Json :=
  .obj [("status", .str "error"), ("schema_version", .str "1"),
    ("error", .obj ([("code", .nat e.code), ("message", .str e.message)] ++
      e.path?.toList.map (("path", .str ·))))]

end RunError

end AutoDoc
