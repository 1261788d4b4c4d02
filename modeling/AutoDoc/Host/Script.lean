import AutoDoc.Host.Basic
import AutoDoc.Outline.Codec
import AutoDoc.Outline.Reader
import AutoDoc.SourceText
import AutoDoc.Text.Search
import AutoDoc.Toolkit.Table
import AutoDoc.Worker.Service

/-!
# Scripted programs

A host whose programs follow a script, so that a run needs nothing else: what is printed for a
source, how a worker starts and what it prints for a request. What the script does not cover is
done in the plain way: sources are read by indentation and toolkit requests answered from tables.
-/

namespace AutoDoc

/-- The output for sources that hold a text, or for all of them. -/
structure ParseRule where
  contains : Option String := none
  output : ProgramOutput
deriving DecidableEq, Repr

/-- A step of a worker that starts. -/
inductive StartStep where
  | print (text : String)
  | exit (status : Int)
deriving DecidableEq, Repr

/-- The lines for requests with an operation or a text in them, after which the worker may end. In
a line `$ID` stands for the identifier of the request. -/
structure RequestRule where
  op : Option String := none
  contains : Option String := none
  lines : List String := []
  ends : Bool := false
deriving DecidableEq, Repr

/-- A worker process takes requests, or has ended. -/
inductive Phase where
  | waiting
  | ended
deriving DecidableEq, Repr

structure Script where
  interpreter : String := "python3"
  formatter : String := "formatter"
  parsing : List ParseRule := []
  /-- The steps of each start; the last list holds for all later starts. -/
  startups : List (List StartStep) := []
  rules : List RequestRule := []
  toolkit : TableToolkit := {}
deriving Repr

namespace Script

def parse (script : Script) (source : String) : ProgramOutput :=
  match script.parsing.find? fun r => r.contains.all (Text.occursIn · source) with
  | some rule => rule.output
  | none => ⟨0, (Outline.read source).toJson.compact, ""⟩

/-- The ready message of a worker without a script. -/
def readyLine : String := "\x7b\"status\": \"ready\", \"version\": \"1\"\x7d"

/-- The steps of the `n`-th start. -/
def startup (script : Script) (n : Nat) : List StartStep :=
  match script.startups[n]?.or script.startups.getLast? with
  | some steps => steps
  | none => [.print readyLine]

def printed (text : String) : List Worker.Output := (SourceText.ofText text).lines.map .ok

/-- What the steps of a start print, and whether a process is left. -/
def playStart : List StartStep → List Worker.Output × Phase
  | [] => ([], .waiting)
  | .exit _ :: _ => ([], .ended)
  | .print text :: rest =>
    let (output, phase) := playStart rest
    (printed text ++ output, phase)

def opOf (request : Json) : String :=
  match request.get? "op" with
  | some (.str op) => op
  | some v => v.compact
  | none => ""

def idOf (request : Json) : Json := (request.get? "id").getD .null

/-- A rule covers a request that was written as `line`. -/
def RequestRule.covers (rule : RequestRule) (op line : String) : Bool :=
  rule.op.all (· == op) && rule.contains.all (Text.occursIn · line)

def reply (request : Json) (status : String) (members : List (String × Json)) : String :=
  (Json.obj ([("id", idOf request), ("status", .str status)] ++ members)).compact

def errorReply (request : Json) (code message : String) : String :=
  reply request "error" [("error_code", .str code), ("message", .str message)]

def toolkitReply {α : Type} (request : Json) (key : String) (toJson : α → Json) :
    Except ToolkitError α → String
  | .ok a => reply request "ok" [(key, toJson a)]
  | .error _ => errorReply request "RuntimeError" "toolkit offline"

def textOf (request : Json) (key : String) : String :=
  ((request.get? key).bind Json.text?).getD ""

def textsOf (request : Json) (key : String) : List String :=
  ((request.get? key).bind (Json.list? Json.text?)).getD []

/-- The known verbs of the tables, in ascending order and each of them once. -/
def sortedVerbs (table : TableToolkit) : List String :=
  table.verbs.eraseDups.mergeSort fun a b => decide (a ≤ b)

/-- The reply to a request that no rule covers, and whether a process is left. -/
def plainReply (table : TableToolkit) (args : List String) (request : Json) : String × Phase :=
  match opOf request with
  | "shutdown" => (reply request "ok" [], .ended)
  | "segment" =>
    (toolkitReply request "words" .texts (table.segment (textOf request "identifier")), .waiting)
  | "spell_correct" =>
    (toolkitReply request "words" .texts (table.spellCorrect (textsOf request "words")), .waiting)
  | "pos_tag" =>
    (toolkitReply request "tokens" (fun ts => .arr (ts.map Token.toJson))
      (table.tag (textOf request "phrase")), .waiting)
  | "stem" =>
    (toolkitReply request "stems" .texts (table.stem (textsOf request "words")), .waiting)
  | "known_verbs" => (reply request "ok" [("verbs", .texts (sortedVerbs table))], .waiting)
  | "echo" => (reply request "ok" [("echo", request), ("args", .texts args)], .waiting)
  | op => (errorReply request "UnknownOp" ("unknown op: " ++ op), .waiting)

/-- What a worker prints for a request line, and whether a process is left. -/
def answer (script : Script) (args : List String) (line : String) : List Worker.Output × Phase :=
  let request := (Json.parse? line).getD .null
  match script.rules.find? fun r => RequestRule.covers r (opOf request) line with
  | some rule =>
    (rule.lines.flatMap fun l => printed (Text.replace "$ID" (idOf request).compact l),
      if rule.ends then .ended else .waiting)
  | none =>
    let (text, phase) := plainReply script.toolkit args request
    (printed text, phase)

/-- The interpreter as a worker. A process that has ended takes a request without an answer. -/
def worker (script : Script) (args : List String) : Worker.Program Phase where
  start n := .ok (playStart (script.startup n))
  request phase line :=
    match phase with
    | .ended => .ok ([], .ended)
    | .waiting => .ok (script.answer args line)

/-- Put a text behind the file at a path, if it can be read. -/
def appendTo (suffix : String) (top : Node) (path : String) : Node :=
  match top.readBytes path with
  | .error _ => top
  | .ok content => (top.writeBytes path (content ++ suffix.toUTF8)).toOption.getD top

/-- The formatter: its first arguments are the status, the two outputs and a text that it puts
behind every file named by the others. -/
def format (args : List String) (top : Node) : ProgramOutput × Node :=
  let arg (i : Nat) : String := args[i]?.getD ""
  (⟨(arg 0).toInt?.getD 0 % 256, arg 1, arg 2⟩, (args.drop 4).foldl (appendTo (arg 3)) top)

/-- What the steps of a start leave when there are no requests: a process that is not ended by a
step ends well. -/
def playAlone : List StartStep → ProgramOutput
  | [] => ⟨0, "", ""⟩
  | .exit status :: _ => ⟨status, "", ""⟩
  | .print text :: rest =>
    let out := playAlone rest
    { out with stdout := text ++ "\n" ++ out.stdout }

/-- The argument with which the interpreter parses a source. -/
def parseOption : String := "-c"

/-- A program run to its end, with nothing to read. The interpreter parses an empty source if asked
to, and otherwise is a worker without requests. -/
def run (script : Script) (program : String) (args : List String) (env : Environment) :
    ProgramOutput × Environment :=
  if program == script.formatter then
    let (out, tree) := format args env.tree
    (out, { env with tree })
  else if args.head? == some parseOption then (script.parse "", env)
  else (playAlone (script.startup env.starts), { env with starts := env.starts + 1 })

def host (script : Script) : Host Phase where
  installed name := name == script.interpreter || name == script.formatter
  parse _ source := script.parse source
  worker _ args := script.worker args
  run := script.run

end Script

end AutoDoc
