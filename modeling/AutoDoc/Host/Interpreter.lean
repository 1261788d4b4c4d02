import AutoDoc.Host.Basic
import AutoDoc.Json.Parser
import AutoDoc.Outline.Codec
import AutoDoc.Outline.Parser
import AutoDoc.Text.White

/-!
# An interpreter as a parser

The interpreter is run once for each source and writes the outline as JSON.
-/

namespace AutoDoc

/-- The outline that a program wrote. A status other than zero is a failure. -/
def ProgramOutput.outline (out : ProgramOutput) : Except ParseError Outline :=
  if out.status ≠ 0 then .error (.failed out.status (Text.trim out.stderr))
  else
    match (Json.parse? out.stdout).bind Outline.ofJson? with
    | some outline => .ok outline
    | none => .error (.invalidOutput "malformed outline")

def Located.parser {π : Type} (host : Host π) (located : Located) : Parser := fun _ source =>
  match located.launch host [] with
  | .ok program => .ok (host.parse program source).outline
  | .error e => .ok (.error (.spawnFailed e.message))

def Host.parser {π : Type} (host : Host π) (top : Node) (interpreter : String) :
    Except ParseError Parser :=
  match host.locate? top interpreter with
  | some located => .ok (located.parser host)
  | none =>
    .error (.spawnFailed (Worker.Error.interpreterNotFound interpreter).message)

end AutoDoc
