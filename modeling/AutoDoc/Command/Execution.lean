import AutoDoc.Command.Line
import AutoDoc.Configuration
import AutoDoc.Json.Printer

/-!
# Executing a command line

A command prints its result and ends with a status. Errors are printed as one line of JSON; a
single file whose documented form was not valid is an error too, told after the summary. A fault
outside the work on a file ends the command with nothing printed.
-/

namespace AutoDoc.Command

/-- What an executed command leaves: its output and its exit status. -/
structure Execution where
  stdout : String
  status : Nat
deriving DecidableEq, Repr

def versionLine : String := "tugdoc 0.1.0\n"

/-- A command that ends with an error, after other output. -/
def Execution.failed (before : String) (e : RunError) : Execution :=
  ⟨before ++ e.toJson.compact ++ "\n", e.code⟩

/-- A command that a fault has ended before anything was printed. -/
def Execution.faulted : Execution := ⟨"", 101⟩

def render (layout : Layout) (s : Summary) : String :=
  match layout with
  | .text => s.text
  | .json => s.toJson.pretty ++ "\n"

/-- The error that a summary stands for: a single file that was not valid. -/
def errorOf? (target : Target) (s : Summary) : Option RunError :=
  match target with
  | .repository => none
  | .file _ => s.validationFailure?.map fun f => .validationFailed f.path

def conclude (invocation : Invocation) : Except RunError Summary → Execution
  | .error e => .failed "" e
  | .ok summary =>
    let output := render invocation.output summary
    match errorOf? invocation.options.target summary with
    | some e => .failed output e
    | none => ⟨output, 0⟩

def perform {π : Type} (host : Host π) (invocation : Invocation) (started : Calendar.Instant)
    (env : Environment) : Execution × Environment :=
  if invocation.workers == some 0 then
    (.failed "" (.invalidArguments "--workers must be at least 1"), env)
  else
    let settings :=
      (Settings.ofRoot env.tree invocation.options.root).withWorkers invocation.workers
    match Run.attempt host invocation.options settings started env with
    | (.ok result, env) => (conclude invocation result, env)
    | (.error _, env) => (.faulted, env)

def execute {π : Type} (host : Host π) (args : List String) (started : Calendar.Instant)
    (env : Environment) : Execution × Environment :=
  match parse args with
  | .ok invocation => perform host invocation started env
  | .error .refused => (⟨"", 2⟩, env)
  | .error .version => (⟨versionLine, 0⟩, env)
  | .error .help => (⟨"", 0⟩, env)

end AutoDoc.Command
