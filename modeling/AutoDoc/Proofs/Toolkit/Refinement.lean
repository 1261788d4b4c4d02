import AutoDoc.Proofs.Host.Tables
import AutoDoc.Proofs.Toolkit.Transcript

/-!
# A toolkit behind a worker is the toolkit

Calls to a service whose worker hosts the tables of a toolkit come to what the tables have for them,
whatever calls came before (`hosted_toolkit_refined`). One call costs an identifier and leaves the
service as ready as before (`perform_simulates`); so do any number of them (`performAll_simulates`),
as long as there are identifiers.
-/

namespace AutoDoc

def Toolkit.Call.op : Toolkit.Call → ToolkitOp
  | .segment _ => .segment
  | .spellCorrect _ => .spellCorrect
  | .tag _ => .tag
  | .stem _ => .stem

def Toolkit.perform {σ : Type} (t : Toolkit σ) :
    Toolkit.Call → StateM σ (Except ToolkitError Toolkit.Answer)
  | .segment identifier => do return (← (t.segment identifier).run).map .words
  | .spellCorrect words => do return (← (t.spellCorrect words).run).map .words
  | .tag phrase => do return (← (t.tag phrase).run).map .tokens
  | .stem words => do return (← (t.stem words).run).map .words

/-- The results of calls, one after another, whether they fail or not. -/
def Toolkit.performAll {σ : Type} (t : Toolkit σ) :
    List Toolkit.Call → StateM σ (List (Except ToolkitError Toolkit.Answer))
  | [] => return []
  | call :: rest => do
    let result ← t.perform call
    let results ← t.performAll rest
    return result :: results

def TableToolkit.resultOf (t : TableToolkit) : Toolkit.Call → Except ToolkitError Toolkit.Answer
  | .segment identifier => (t.segment identifier).map .words
  | .spellCorrect words => (t.spellCorrect words).map .words
  | .tag phrase => (t.tag phrase).map .tokens
  | .stem words => (t.stem words).map .words

namespace Worker

theorem relayed_map {α β : Type} (op : String) (f : α → β) (result : Except ToolkitError α) :
    relayed op (result.map f) = (relayed op result).map f := by
  cases result <;> rfl

namespace Hosts

variable {π τ : Type} {program : Program π} {t : TableToolkit} {serving : π → Prop}
  (hosts : Hosts program t serving)
include hosts

theorem perform_simulates (verbs : List String) (call : Toolkit.Call) :
    Simulates (Service.Beside τ serving) 1 Eq
      ((Service.toolkit program verbs).perform call)
      (pure (relayed call.op.name (t.resultOf call))) := by
  cases call <;> rw [TableToolkit.resultOf, relayed_map]
  case segment identifier => exact (hosts.segment_simulates identifier verbs).map _
  case spellCorrect words => exact (hosts.spellCorrect_simulates words verbs).map _
  case tag phrase => exact (hosts.tag_simulates phrase verbs).map _
  case stem words => exact (hosts.stem_simulates words verbs).map _

theorem performAll_simulates (verbs : List String) (calls : List Toolkit.Call) :
    Simulates (Service.Beside τ serving) calls.length Eq
      ((Service.toolkit program verbs).performAll calls)
      (pure (calls.map fun call => relayed call.op.name (t.resultOf call))) := by
  induction calls with
  | nil => exact .pure rfl
  | cons call rest ih =>
    rw [List.length_cons, Nat.add_comm]
    exact (hosts.perform_simulates verbs call).bind_pure (ih.map _)

end Hosts

/-- The service with a hosted toolkit is the toolkit. It starts, and knows the same verbs. After any
calls, failed ones among them, every call comes to what the tables have for it; only the failures
carry the message of the worker. So it leads to the same documentation blocks. This holds while
there are identifiers, numbers of 64 bits: the start takes two of them, zero among them, each call
one and a block at most four. -/
theorem hosted_toolkit_refined {π : Type} {program : Program π} {t : TableToolkit}
    {serving : π → Prop} (hosts : Hosts program t serving) (starts : Nat) :
    ∃ service, Service.start program starts = (.ok service, starts + 1) ∧
      (∀ verb, verb ∈ service.verbs ↔ verb ∈ t.verbs) ∧
      ∀ calls : List Toolkit.Call,
        let client := Service.toolkit program service.verbs
        let outcome := (client.performAll calls).run service
        (calls.length + 2 ≤ Word.limit64 →
          outcome.1 = calls.map fun call => (t.resultOf call).mapError fun _ =>
            .requestFailed call.op.name "RuntimeError: toolkit offline") ∧
        (calls.length + 6 ≤ Word.limit64 → ∀ (conventions : Conventions) (e : Element),
          ((Docstring.block conventions (some client) e).run outcome.2).1 =
            ((Docstring.block conventions (some (t.toolkit : Toolkit Unit)) e).run ()).1) := by
  obtain ⟨service, started, same, ready⟩ := hosts.start_ready starts
  refine ⟨service, started, same, fun calls => ?_⟩
  have budget {room : Nat} (few : calls.length + (room + 2) ≤ Word.limit64) :
      Word.limit64 - 2 = Word.limit64 - (room + 2) - calls.length + room + calls.length := by
    omega
  have performed {room : Nat} (few : calls.length + (room + 2) ≤ Word.limit64) :=
    hosts.performAll_simulates service.verbs calls _ service () (budget few ▸ ready)
  refine ⟨fun few => (performed few).1, fun few conventions e => ?_⟩
  exact (Docstring.block_simulates Service.Beside.less (.some (hosts.toolkit_simulates same))
    conventions e _ _ () (performed few).2).1

/-- Calls on a scripted worker, one of them to a request that is switched off, and the block of a
function behind them. -/
theorem hosted_toolkit_refined_offline :
    let t : TableToolkit :=
      { tags := [("open", "VERB", "ROOT")], verbs := ["open"], failing := [.stem] }
    let program := ({ toolkit := t } : Script).worker ["toolkit"]
    let e : Element := {
      name := "openLamp", kind := .function, startLine := 1, endLine := 2, totalLines := 2,
      linesOfCode := 2 }
    ∃ service, Service.start program 0 = (.ok service, 1) ∧
      let client := Service.toolkit program service.verbs
      let outcome :=
        (client.performAll [.segment "openLamp", .stem ["open"], .tag "open lamp"]).run service
      outcome.1 = [.ok (.words ["open", "lamp"]),
          .error (.requestFailed "stem" "RuntimeError: toolkit offline"),
          .ok (.tokens [⟨"open", "VERB", "ROOT"⟩, ⟨"lamp", "X", "dep"⟩])] ∧
        ((Docstring.block {} (some client) e).run outcome.2).1 =
          ((Docstring.block {} (some (t.toolkit : Toolkit Unit)) e).run ()).1 := by
  intro t program e
  obtain ⟨service, started, -, refined⟩ :=
    hosted_toolkit_refined (Script.worker_hosts t ["toolkit"]) 0
  obtain ⟨results, blocks⟩ := refined [.segment "openLamp", .stem ["open"], .tag "open lamp"]
  exact ⟨service, started, (results (by decide)).trans (by decide +kernel), blocks (by decide) {} e⟩

end Worker

end AutoDoc
