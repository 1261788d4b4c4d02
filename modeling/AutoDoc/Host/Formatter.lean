import AutoDoc.Host.Basic
import AutoDoc.Text.White

/-!
# Formatters

A formatter is a command to which paths are appended. Whether it passed is told by its exit status.
At the end of a run formatters are only asked for their best effort: what prevents one from running
is passed over.
-/

namespace AutoDoc

/-- A formatter with the name under which it is reported. -/
structure Formatter where
  name : String
  command : List String
deriving DecidableEq, Repr

/-- What a formatter did. Time is measured outside. -/
structure FormatReport where
  name : String
  passed : Bool
  durationMs : Nat := 0
  output : Option String := none
deriving DecidableEq, Repr

inductive FormatterError where
  | emptyCommand (name : String)
  | notFound (program : String)
  | os (error : OsError)
deriving DecidableEq, Repr

def FormatterError.message : FormatterError → String
  | .emptyCommand name => "no command configured for " ++ name
  | .notFound program => program ++ " not found on PATH"
  | .os error => "IO error: " ++ error.message

namespace Formatter

def report (name : String) (out : ProgramOutput) : FormatReport :=
  let output := out.stdout ++ out.stderr
  { name, passed := out.status == 0, output := if Text.isBlank output then none else some output }

def run {π : Type} (host : Host π) (f : Formatter) (paths : List String) (env : Environment) :
    Except FormatterError FormatReport × Environment :=
  match f.command with
  | [] => (.error (.emptyCommand f.name), env)
  | program :: args =>
    match host.locate? env.tree program with
    | none => (.error (.notFound program), env)
    | some located =>
      match located.launch host (args ++ paths) with
      | .error e => (.error (.os e), env)
      | .ok program =>
        let (out, env) := host.run program (args ++ paths) env
        (.ok (report f.name out), env)

/-- Run a formatter on paths if there are any, and report if it ran. -/
def runBestEffort {π : Type} (host : Host π) (f : Formatter) (paths : List String)
    (env : Environment) : Option FormatReport × Environment :=
  if paths.isEmpty then (none, env)
  else
    match f.run host paths env with
    | (.ok report, env) => (some report, env)
    | (.error _, env) => (none, env)

end Formatter

end AutoDoc
