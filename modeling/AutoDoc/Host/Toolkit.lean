import AutoDoc.Host.Basic
import AutoDoc.Worker.Service

/-!
# An interpreter as a toolkit

The interpreter runs as a worker that loads the toolkit from a module.
-/

namespace AutoDoc

/-- A service together with the program of its worker. -/
abbrev HostedService (π : Type) := Worker.Program π × Worker.Service π

/-- Start the toolkit that an interpreter loads from a module. The number of processes started so
far is passed on and returned. -/
def Host.startToolkit {π : Type} (host : Host π) (top : Node) (interpreter module : String)
    (starts : Nat) : Except ToolkitError (HostedService π) × Nat :=
  match host.locate? top interpreter with
  | none =>
    (.error (.unavailable (Worker.Error.interpreterNotFound interpreter).message), starts)
  | some located =>
    let program := located.worker host [module]
    match Worker.Service.start program starts with
    | (.ok service, starts) => (.ok (program, service), starts)
    | (.error e, starts) => (.error e, starts)

end AutoDoc
