import AutoDoc.Calendar
import AutoDoc.Document
import AutoDoc.Host.Formatter
import AutoDoc.Json.Value
import AutoDoc.Word

/-!
# Summaries of runs

What became of the files of a run, as plain text or as JSON. Files that were left alone are listed
in the order of the outcomes.
-/

namespace AutoDoc

namespace FailureReason

/-- A reason as a value; some reasons carry a detail. -/
def toJson : FailureReason → Json
  | .parseInvalid => .obj [("reason", .str "parse_invalid")]
  | .nothingToDocument => .obj [("reason", .str "nothing_to_document")]
  | .validationFailed => .obj [("reason", .str "validation_failed")]
  | .os detail => .obj [("reason", .str "io"), ("detail", .str detail)]
  | .parser detail => .obj [("reason", .str "parser"), ("detail", .str detail)]
  | .panicked detail => .obj [("reason", .str "panicked"), ("detail", .str detail)]

end FailureReason

def FileOutcome.toJson (o : FileOutcome) : Json :=
  match o.status with
  | .documented inserted =>
    .obj [("path", .str o.path), ("status", .str "documented"), ("inserted", .nat inserted)]
  | .failed reason =>
    .obj [("path", .str o.path), ("status", .str "failed"), ("reason", reason.toJson)]

def FormatReport.toJson (r : FormatReport) : Json :=
  .obj ([("name", .str r.name), ("status", .str (if r.passed then "passed" else "failed")),
    ("duration_ms", .nat r.durationMs)] ++ r.output.toList.map (("output", .str ·)))

structure FailedFile where
  path : String
  reason : FailureReason
deriving DecidableEq, Repr

def FailedFile.toJson (f : FailedFile) : Json :=
  .obj [("path", .str f.path), ("reason", f.reason.toJson)]

structure Summary where
  /-- When the run started. -/
  startedAt : String
  discovered : Nat
  documented : Nat
  inserted : Nat
  failed : List FailedFile
  formatting : List FormatReport := []
deriving DecidableEq, Repr

namespace Summary

def insertedBy (o : FileOutcome) : Nat :=
  match o.status with
  | .documented n => n
  | .failed _ => 0

/-- Add numbers within 64 bits. -/
def sum64 (total : Nat) : List Nat → Except Fault Nat
  | [] => .ok total
  | n :: rest => if total + n < Word.limit64 then sum64 (total + n) rest else .error .addOverflow

/-- Sum outcomes up. The total of inserted blocks has to fit 64 bits, and the start of the run has
to have a text. -/
def ofOutcomes (started : Calendar.Instant) (outcomes : List FileOutcome) :
    Except Fault Summary := do
  let inserted ← sum64 0 (outcomes.map insertedBy)
  let startedAt ← Calendar.timestamp started
  return {
    startedAt, inserted
    discovered := outcomes.length
    documented := outcomes.countP (·.isDocumented)
    failed := outcomes.filterMap fun o => o.failure?.map (⟨o.path, ·⟩) }

/-- The first file whose documented form was not valid. -/
def validationFailure? (s : Summary) : Option FailedFile :=
  s.failed.find? fun f => f.reason == .validationFailed

def text (s : Summary) : String :=
  let head := "Successfully documented " ++ toString s.documented ++ " out of " ++
    toString s.discovered ++ " files found\n"
  if s.failed.isEmpty then head
  else
    head ++ "Failed to document:\n" ++ String.join (s.failed.map fun f =>
      "  " ++ f.path ++ " (" ++ f.reason.message ++ ")\n")

/-- The summary as a value; reports on formatters are left out if there are none. -/
def toJson (s : Summary) : Json :=
  .obj ([("status", .str "ok"), ("schema_version", .str "1"),
    ("started_at", .str s.startedAt), ("discovered", .nat s.discovered),
    ("documented", .nat s.documented), ("docstrings_inserted", .nat s.inserted),
    ("failed", .arr (s.failed.map FailedFile.toJson))] ++
    if s.formatting.isEmpty then []
    else [("formatting", .arr (s.formatting.map FormatReport.toJson))])

end Summary

end AutoDoc
