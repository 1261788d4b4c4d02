import AutoDoc.Fault
import AutoDoc.Outline.Basic

/-!
# Parsers

A parser gives an outline for a source. It may fail, or end with a fault, and the reply to one and
the same source may change from call to call, so a parser is a function of the number of the call
and the source.
-/

namespace AutoDoc

inductive ParseError where
  | spawnFailed (reason : String)
  | failed (status : Int) (stderr : String)
  | invalidOutput (reason : String)
  | os (reason : String)
deriving DecidableEq, Repr

def ParseError.message : ParseError → String
  | .spawnFailed reason => "failed to start parser: " ++ reason
  | .failed status stderr => "parser exited with status " ++ toString status ++ ": " ++ stderr
  | .invalidOutput reason => "invalid parser output: " ++ reason
  | .os reason => "IO error: " ++ reason

abbrev ParseReply := Except Fault (Except ParseError Outline)

/-- A parser: its reply to the source of each call, calls counted from zero. -/
abbrev Parser := Nat → String → ParseReply

end AutoDoc
