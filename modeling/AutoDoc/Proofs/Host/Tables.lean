import AutoDoc.Host.Script
import AutoDoc.Proofs.Text.Lines
import AutoDoc.Proofs.Worker.Hosting

/-!
# Scripted workers host their tables

A worker without a script of its own answers toolkit requests from its tables (`worker_hosts`). Its
replies are objects in the compact layout, and such a text is one line that tells just this object.
-/

namespace AutoDoc

open Json

theorem Json.trim_compact_obj (members : List (String × Json)) :
    Text.trim (obj members).compact = (obj members).compact := by
  rw [← String.toList_inj, Text.trim, String.toList_ofList, compact_obj]
  simp [Text.trimChars, Text.dropRightWhile, Text.isWhite]

namespace Worker

variable {α : Type} {id : Nat} {key : String} {write : α → Json} {result : Except ToolkitError α}

theorem printable_reply (small : id < Word.limit64) (inside : ∀ a, Printable 126 (write a)) :
    Printable 127 (.obj (replyMembers id key write result)) := by
  cases result with
  | ok a =>
    exact .obj_cons (.nat small) <| .obj_cons (.str _) <| .obj_cons (inside a) .obj_nil
  | error e =>
    exact .obj_cons (.nat small) <| .obj_cons (.str _) <| .obj_cons (.str _) <|
      .obj_cons (.str _) .obj_nil

/-- An object in the compact layout tells its members. -/
theorem tells_compact {members : List (String × Json)} (printable : Printable 127 (.obj members)) :
    Tells (obj members).compact members :=
  ⟨members, by rw [trim_compact_obj, printable.parse?], .refl _⟩

end Worker

namespace Script

open Worker

theorem printed_compact {members : List (String × Json)}
    (plain : (obj members).isPlain = true) :
    printed (obj members).compact = [.ok (obj members).compact] := by
  rw [printed, SourceText.ofText,
    SourceText.splitChars_of_noNewline (newline_not_mem_compact _ plain)]
  simp

section

variable {α : Type} {op key : String} {params : List (String × Json)} {write : α → Json}
  {result : Except ToolkitError α}

theorem toolkitReply_eq {request : Json} {id : Nat} (own : request.get? "id" = some (.nat id)) :
    toolkitReply request key write result = (obj (replyMembers id key write result)).compact := by
  cases result <;> simp [toolkitReply, errorReply, reply, idOf, own, replyMembers]

/-- A worker without rules answers what its tables reply to. -/
theorem worker_answers (t : TableToolkit) (args : List String)
    (replies : ∀ request, opOf request = op → (∀ m ∈ params, request.get? m.1 = some m.2) →
      plainReply t args request = (toolkitReply request key write result, .waiting))
    (inside : ∀ a, Printable 126 (write a)) :
    Answers (({ toolkit := t } : Script).worker args) (· = .waiting) op params key write result := by
  rintro _ line request id rfl parsed small own named given
  have printable : Printable 127 (obj (replyMembers id key write result)) :=
    printable_reply small inside
  have reply := replies request (by simp [opOf, named]) given
  refine ⟨_, .waiting, ?_, rfl, tells_compact printable⟩
  change Except.ok (({ toolkit := t } : Script).answer args line) = _
  simp only [answer, parsed, Option.getD_some, List.find?_nil, reply, toolkitReply_eq own,
    printed_compact printable.plain]

end

theorem awaitReady_readyLine : awaitReady (printed readyLine ++ []) = .ok ("1", []) := by
  decide +kernel

/-- A worker without a script hosts its tables. -/
theorem worker_hosts (t : TableToolkit) (args : List String) :
    Hosts (({ toolkit := t } : Script).worker args) t (· = .waiting) where
  start n := ⟨printed readyLine ++ [], .waiting, "1", rfl, awaitReady_readyLine, rfl⟩
  knownVerbs := by
    refine ⟨sortedVerbs t, fun verb => ?_, worker_answers t args ?_ .texts⟩
    · rw [sortedVerbs, List.mem_mergeSort, List.mem_eraseDups]
    · intro request named _
      rw [plainReply, named]
      rfl
  segment identifier := by
    refine worker_answers t args (fun request named given => ?_) .texts
    have argument := given _ List.mem_cons_self
    rw [plainReply, named]
    simp [textOf, argument]
  spellCorrect words := by
    refine worker_answers t args (fun request named given => ?_) .texts
    have argument := given _ List.mem_cons_self
    rw [plainReply, named]
    simp [textsOf, argument]
  tag phrase := by
    refine worker_answers t args (fun request named given => ?_) (.arr_map fun token => ?_)
    · have argument := given _ List.mem_cons_self
      rw [plainReply, named]
      simp [textOf, argument]
    · exact .obj_cons (.str _) <| .obj_cons (.str _) <| .obj_cons (.str _) .obj_nil
  stem words := by
    refine worker_answers t args (fun request named given => ?_) .texts
    have argument := given _ List.mem_cons_self
    rw [plainReply, named]
    simp [textsOf, argument]

end Script

end AutoDoc
