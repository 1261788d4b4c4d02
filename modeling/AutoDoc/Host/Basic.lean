import AutoDoc.Tree.Access
import AutoDoc.Worker.Session

/-!
# The programs outside

A run uses three kinds of programs: an interpreter that parses sources, the same interpreter as a
long-lived worker, and formatters that change files. A host is what these programs do.
-/

namespace AutoDoc

/-- What a program that has ended leaves behind. -/
structure ProgramOutput where
  status : Int
  stdout : String
  stderr : String
deriving DecidableEq, Repr

/-- What programs work in: the tree, and the number of starts of the interpreter as a worker. -/
structure Environment where
  tree : Node
  starts : Nat := 0

/-- The behaviour of the programs outside; worker processes have states `π`. -/
structure Host (π : Type) where
  /-- Programs that are found by name. -/
  installed : String → Bool
  /-- An interpreter run on a source. -/
  parse : (interpreter source : String) → ProgramOutput
  /-- An interpreter run as a worker with arguments. -/
  worker : (interpreter : String) → (args : List String) → Worker.Program π
  /-- A program run with arguments to its end, which may change files. -/
  run : (program : String) → (args : List String) → Environment → ProgramOutput × Environment
  /-- Why the program at a path cannot be executed, if it cannot. -/
  refusal : (path : String) → Option OsError := fun _ => some .permissionDenied
  /-- Why so many threads cannot be started, if they cannot. -/
  threads : Nat → Option String := fun _ => none

/-- A program that was found, by its name or as a file. -/
inductive Located where
  | byName (name : String)
  | byPath (path : String)
deriving DecidableEq, Repr

/-- Look a program up. A path of several components is taken as it is and has to exist. -/
def Host.locate? {π : Type} (host : Host π) (top : Node) (program : String) : Option Located :=
  if 1 < Path.componentCount program then
    if top.pathExists program then some (.byPath program) else none
  else if host.installed program then some (.byName program)
  else none

/-- A program that was found is started with arguments, under its name or its path. Arguments that
cannot be passed on are the first obstacle; a file may not be executable. -/
def Located.launch {π : Type} (host : Host π) (args : List String) (located : Located) :
    Except OsError String :=
  if args.any Path.hasNul then .error .nulInArgument
  else
    match located with
    | .byName name => .ok name
    | .byPath path =>
      match host.refusal path with
      | none => .ok path
      | some e => .error e

/-- The worker program of an interpreter. One that cannot be started refuses every start. -/
def Located.worker {π : Type} (host : Host π) (args : List String) (located : Located) :
    Worker.Program π :=
  match located.launch host args with
  | .ok name => host.worker name args
  | .error e =>
    { start := fun _ => .error e
      request := fun _ _ => .error .brokenPipe }

end AutoDoc
