import AutoDoc.Run.Basic
import AutoDoc.Word

/-!
# Command lines

A command line is a list of switches and options. Options take a value as the next argument or
behind an equals sign. Nothing may be given twice, and exactly one target has to be given. What is
wrong with a command line is not said: it is only refused.
-/

namespace AutoDoc.Command

inductive Layout where
  | text
  | json
deriving DecidableEq, Repr

inductive LogLevel where
  | trace
  | debug
  | info
  | warn
  | error
deriving DecidableEq, Repr

/-- Arguments without a value. -/
inductive Switch where
  | repo
  | noBackup
  | noFormat
  | noImportSort
  | nlp
deriving DecidableEq, Repr

/-- Arguments with a value. -/
inductive Valued where
  | file
  | root
  | workers
  | output
  | logLevel
  | logFormat
deriving DecidableEq, Repr

/-- What one argument stands for. -/
inductive Argument where
  | switch (s : Switch)
  | valued (v : Valued) (value : Option String)
  | version
  | help
  | unknown
deriving DecidableEq, Repr

/-- Why reading a command line ended without an invocation. -/
inductive Stop where
  | refused
  | version
  | help
deriving DecidableEq, Repr

structure Invocation where
  options : RunOptions
  workers : Option Nat
  output : Layout
deriving DecidableEq, Repr

def Layout.ofName? : String → Option Layout
  | "text" => some .text
  | "json" => some .json
  | _ => none

def LogLevel.ofName? : String → Option LogLevel
  | "trace" => some .trace
  | "debug" => some .debug
  | "info" => some .info
  | "warn" => some .warn
  | "error" => some .error
  | _ => none

/-- The number that digits write, if it fits 64 bits; a plus sign may stand in front. -/
def count? (s : String) : Option Nat :=
  let digits := match s.toList with
    | '+' :: rest => rest
    | cs => cs
  if digits.isEmpty || !digits.all Char.isDigit then none
  else
    let n := digits.foldl (fun n c => 10 * n + (c.toNat - '0'.toNat)) 0
    if n < Word.limit64 then some n else none

def Switch.ofName? : String → Option Switch
  | "repo" => some .repo
  | "no-backup" => some .noBackup
  | "no-format" => some .noFormat
  | "no-isort" => some .noImportSort
  | "nlp" => some .nlp
  | _ => none

def Valued.ofName? : String → Option Valued
  | "file" => some .file
  | "root" => some .root
  | "workers" => some .workers
  | "output" => some .output
  | "log-level" => some .logLevel
  | "log-format" => some .logFormat
  | _ => none

/-- An argument that was written with two dashes. Only options may have a value attached. -/
def Argument.ofLong (name : String) (value : Option String) : Argument :=
  match Valued.ofName? name with
  | some v => .valued v value
  | none =>
    if value.isSome then .unknown
    else
      match Switch.ofName? name with
      | some s => .switch s
      | none =>
        match name with
        | "version" => .version
        | "help" => .help
        | _ => .unknown

/-- What an argument stands for, unless it is the value of an option. Of several letters behind one
dash the first decides, because both letters end the reading. -/
def Argument.ofText (arg : String) : Argument :=
  match arg.toList with
  | '-' :: '-' :: rest =>
    let name := String.ofList (rest.takeWhile (· != '='))
    match rest.dropWhile (· != '=') with
    | [] => ofLong name none
    | _ :: value => ofLong name (some (String.ofList value))
  | '-' :: 'V' :: _ => .version
  | '-' :: 'h' :: _ => .help
  | _ => .unknown

/-- An argument that can be the value of the option before it. -/
def isValue (arg : String) : Bool := arg == "-" || arg.toList.head? != some '-'

structure Draft where
  switches : List Switch := []
  file : Option String := none
  root : Option String := none
  workers : Option Nat := none
  output : Option Layout := none
  logLevel : Option LogLevel := none
  logFormat : Option Layout := none
deriving DecidableEq, Repr

namespace Draft

/-- Fill a place that has to be empty with a value that has to be there. -/
def fill {α : Type} : Option α → Option α → Except Stop (Option α)
  | none, some a => .ok (some a)
  | _, _ => .error .refused

def path? (s : String) : Option String := if s.isEmpty then none else some s

def put (d : Draft) (s : Switch) : Except Stop Draft :=
  if d.switches.contains s then .error .refused
  else .ok { d with switches := s :: d.switches }

def putValue (d : Draft) (v : Valued) (value : String) : Except Stop Draft :=
  match v with
  | .file => do return { d with file := ← fill d.file (path? value) }
  | .root => do return { d with root := ← fill d.root (path? value) }
  | .workers => do return { d with workers := ← fill d.workers (count? value) }
  | .output => do return { d with output := ← fill d.output (Layout.ofName? value) }
  | .logLevel => do return { d with logLevel := ← fill d.logLevel (LogLevel.ofName? value) }
  | .logFormat => do return { d with logFormat := ← fill d.logFormat (Layout.ofName? value) }

/-- Read arguments from the first to the last; the first that ends the reading decides. Two dashes
alone end the options, and nothing may follow them. -/
def read : Draft → List String → Except Stop Draft
  | d, [] => .ok d
  | d, arg :: rest =>
    if arg == "--" then
      if rest.isEmpty then .ok d else .error .refused
    else
      match Argument.ofText arg with
      | .unknown => .error .refused
      | .version => .error .version
      | .help => .error .help
      | .switch s => do (← d.put s).read rest
      | .valued v (some value) => do (← d.putValue v value).read rest
      | .valued v none =>
        match rest with
        | [] => .error .refused
        | value :: rest =>
          if isValue value then do (← d.putValue v value).read rest else .error .refused

/-- The target: the repository or a file, and not both. -/
def target (d : Draft) : Except Stop Target :=
  match d.switches.contains .repo, d.file with
  | true, none => .ok .repository
  | false, some path => .ok (.file path)
  | _, _ => .error .refused

def invocation (d : Draft) : Except Stop Invocation := do
  let target ← d.target
  return {
    options := {
      target
      root := d.root.getD "."
      backup := !d.switches.contains .noBackup
      format := !d.switches.contains .noFormat
      sortImports := !d.switches.contains .noImportSort
      nlp := d.switches.contains .nlp }
    workers := d.workers
    output := d.output.getD .text }

end Draft

def parse (args : List String) : Except Stop Invocation := do
  (← Draft.read {} args).invocation

end AutoDoc.Command
