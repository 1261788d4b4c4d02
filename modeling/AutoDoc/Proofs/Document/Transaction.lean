import AutoDoc.Outline.Fixed
import AutoDoc.Proofs.Document.Stages

/-!
# Documenting a file is all or nothing

Whatever the parser replies, and even if its two replies contradict each other, the work on a file
either ends with one write of a text that the parser has just found valid, or it leaves the tree as
it was. `documentFile_all_or_nothing` says this together with what is reported: the status is
decided by the course of the work (`Document.Job.Course`), whose constructors name the stage that
stops.

Its parts are lemmas of their own: the status from the course (`documentFile_status`), what is left
untouched (`documentFile_unchanged`), the calls of the parser (`documentFile_calls`) and what a
documented file went through (`documentFile_written`).
-/

namespace AutoDoc.Node

open Document

section

variable {σ : Type} {top : Node} {parser : Parser} {conventions : Conventions}
  {toolkit : Option (Toolkit σ)} {indentWidth : Nat} {path : String} {progress : Progress σ}

/-- How the status of a file follows from how the work on its text ended. -/
def statusOf : Except Stop Draft → Except Fault FileStatus
  | .error (.fault f) => .error f
  | .error (.failed reason) => .ok (.failed reason)
  | .ok draft => .ok (.documented draft.inserted)

theorem statusOf_eq_documented {result : Except Stop Draft} {n : Nat} :
    statusOf result = .ok (.documented n) ↔ ∃ text, result = .ok ⟨text, n⟩ := by
  rcases result with (_ | _) | ⟨text, m⟩ <;> simp [statusOf]

theorem statusOf_eq_failed {result : Except Stop Draft} {reason : FailureReason} :
    statusOf result = .ok (.failed reason) ↔ result = .error (.failed reason) := by
  rcases result with (_ | _) | _ <;> simp [statusOf]

theorem statusOf_eq_fault {result : Except Stop Draft} {f : Fault} :
    statusOf result = .error f ↔ result = .error (.fault f) := by
  rcases result with (_ | _) | _ <;> simp [statusOf]

/-- The status of a file that could be read is how the work on its text ended. -/
theorem documentFile_status {source : String} (read : top.readText path = .ok source) :
    (top.documentFile parser conventions toolkit indentWidth path progress).1 =
      statusOf (Job.run ⟨parser, conventions, toolkit, indentWidth, source, progress⟩).1 := by
  rcases top.documentFile_cases parser conventions toolkit indentWidth path progress with
    ⟨e, unread, _⟩ | ⟨found, place, again, _, _, result⟩
  · rw [read] at unread
    cases unread
  · obtain rfl : source = found := Except.ok.inj (read.symm.trans again)
    rw [result]
    rcases (Job.run ⟨parser, conventions, toolkit, indentWidth, source, progress⟩).1 with
      (_ | _) | _ <;> rfl

theorem documentFile_unread {e : OsError} (unread : top.readText path = .error e) :
    top.documentFile parser conventions toolkit indentWidth path progress =
      (.ok (.failed (.os e.message)), top, progress) := by
  simp only [documentFile, unread]

/-- A status other than documented means that nothing was touched. -/
theorem documentFile_unchanged
    (failed : ∀ n, (top.documentFile parser conventions toolkit indentWidth path progress).1 ≠
      .ok (.documented n)) :
    (top.documentFile parser conventions toolkit indentWidth path progress).2.1 = top := by
  rcases top.documentFile_cases parser conventions toolkit indentWidth path progress with
    ⟨e, _, result⟩ | ⟨source, place, _, _, _, result⟩
  · rw [result]
  · dsimp only at result
    split at result
    · rw [result]
    · rw [result]
    next draft ran =>
      rw [result] at failed
      exact absurd rfl (failed draft.inserted)

/-- No file takes more than two calls of the parser. -/
theorem documentFile_calls :
    (top.documentFile parser conventions toolkit indentWidth path progress).2.2.calls ≤
      progress.calls + 2 := by
  rcases top.documentFile_cases parser conventions toolkit indentWidth path progress with
    ⟨e, _, result⟩ | ⟨source, place, _, _, _, result⟩
  · rw [result]
    exact Nat.le_add_right _ _
  · have bound := (Job.run_ends
      ⟨parser, conventions, toolkit, indentWidth, source, progress⟩).2.2
    rw [result]
    split <;> exact bound

/-- A documented file has gone through all stages: the text on which the second call answered is
written, at the place that the path spells. -/
theorem documentFile_written (free : top.LinkFree path) {n : Nat}
    (documented : (top.documentFile parser conventions toolkit indentWidth path progress).1 =
      .ok (.documented n)) :
    let tree := (top.documentFile parser conventions toolkit indentWidth path progress).2.1
    ∃ source outline extraction checked, top.readText path = .ok source ∧
      let job : Job σ := ⟨parser, conventions, toolkit, indentWidth, source, progress⟩
      job.Revised outline extraction ∧ n = (job.revision extraction).inserted ∧
        job.secondReply extraction = .ok (.ok checked) ∧ checked.valid = true ∧
        top.writeText path (job.updated extraction) = .ok tree ∧
        tree.contentAt (Path.names path) = some (job.updated extraction).toUTF8 ∧
        SameBut (Path.names path) top tree := by
  intro tree
  obtain ⟨source, place, outline, extraction, checked, read, located, held, revised, again, valid,
    count, put⟩ := documentFile_documented
      (show top.documentFile parser conventions toolkit indentWidth path progress =
        (.ok (.documented n), tree, _) by rw [← documented])
  obtain rfl := locate_of_linkFree free located
  refine ⟨source, outline, extraction, checked, read, revised, count, again, valid, ?_, ?_, ?_⟩
  · rw [put]
    exact writeText_after_read located held _
  · rw [put, contentAt, get?_put held]
    rfl
  · rw [put]
    exact SameBut.put held _

end

/-- Documenting a file is all or nothing, for every tree, every parser and every toolkit. No path
but the one given changes; the parser is called at most twice; unless the file is documented the
tree is the one before. If it is documented, at least one splice has changed the text, the number of
those is reported, and the one write puts down the very text on which the second call of the parser
answered that it is valid. What is reported is decided by the first stage that stops. -/
theorem documentFile_all_or_nothing {σ : Type} (top : Node) (parser : Parser)
    (conventions : Conventions) (toolkit : Option (Toolkit σ)) (indentWidth : Nat) (path : String)
    (progress : Progress σ) (free : top.LinkFree path) :
    let job (source : String) : Job σ :=
      ⟨parser, conventions, toolkit, indentWidth, source, progress⟩
    let result := top.documentFile parser conventions toolkit indentWidth path progress
    let status := result.1
    let tree := result.2.1
    SameBut (Path.names path) top tree ∧
    result.2.2.calls ≤ progress.calls + 2 ∧
    ((∀ n, status ≠ .ok (.documented n)) → tree = top) ∧
    (∀ n, status = .ok (.documented n) →
      1 ≤ n ∧ ∃ source outline extraction checked, top.readText path = .ok source ∧
        (job source).Revised outline extraction ∧
        n = ((job source).revision extraction).steps.countP (·.outcome.modified) ∧
        parser (progress.calls + 1) ((job source).updated extraction) = .ok (.ok checked) ∧
        checked.valid = true ∧
        top.writeText path ((job source).updated extraction) = .ok tree ∧
        tree.contentAt (Path.names path) = some ((job source).updated extraction).toUTF8) ∧
    (∀ n, status = .ok (.documented n) ↔ ∃ source text, top.readText path = .ok source ∧
      (job source).Course (.ok ⟨text, n⟩)) ∧
    (∀ reason, status = .ok (.failed reason) ↔
      (∃ e, top.readText path = .error e ∧ reason = .os e.message) ∨
      ∃ source, top.readText path = .ok source ∧
        (job source).Course (.error (.failed reason))) ∧
    (∀ f, status = .error f ↔ ∃ source, top.readText path = .ok source ∧
      (job source).Course (.error (.fault f))) := by
  intro job result status tree
  have unchanged : (∀ n, status ≠ .ok (.documented n)) → tree = top := documentFile_unchanged
  refine ⟨?_, documentFile_calls, unchanged, ?_, ?_⟩
  · by_cases documented : ∃ n, status = .ok (.documented n)
    · obtain ⟨n, same⟩ := documented
      obtain ⟨_, _, _, _, _, _, _, _, _, _, _, frame⟩ := documentFile_written free same
      exact frame
    · rw [unchanged fun n same => documented ⟨n, same⟩]
      exact SameBut.refl _ _
  · intro n documented
    obtain ⟨source, outline, extraction, checked, read, revised, count, again, valid, put, bytes,
      _⟩ := documentFile_written free documented
    refine ⟨?_, source, outline, extraction, checked, read, revised, count, again, valid, put,
      bytes⟩
    rw [count]
    exact revised.inserted
  · cases read : top.readText path with
    | error e =>
      have failed : status = .ok (.failed (.os e.message)) := by
        simp only [status, result, documentFile_unread read]
      simp [failed, eq_comm]
    | ok source =>
      have decided : status = statusOf (job source).run.1 := documentFile_status read
      rw [decided]
      refine ⟨?_, ?_, ?_⟩
      · intro n
        rw [statusOf_eq_documented]
        constructor
        · rintro ⟨text, ran⟩
          exact ⟨source, text, rfl, Job.course_iff.mpr ran⟩
        · rintro ⟨_, text, same, course⟩
          cases same
          exact ⟨text, Job.course_iff.mp course⟩
      · intro reason
        rw [statusOf_eq_failed, ← Job.course_iff]
        constructor
        · intro course
          exact Or.inr ⟨source, rfl, course⟩
        · rintro (⟨_, unread, _⟩ | ⟨_, same, course⟩)
          · cases unread
          · cases same
            exact course
      · intro f
        rw [statusOf_eq_fault, ← Job.course_iff]
        constructor
        · intro course
          exact ⟨source, rfl, course⟩
        · rintro ⟨_, same, course⟩
          cases same
          exact course

set_option maxRecDepth 100000 in
/-- A module in a folder beside another file: it is documented, the other file stays, and what was
written is the text that the parser accepted. -/
theorem documentFile_all_or_nothing_nested :
    let top : Node := .dir [("other.py", .file "x = 1\n".toUTF8),
      ("pkg", .dir [("mod.py", .file "def f():\n    return 1\n".toUTF8)])]
    let written := "def f():\n    \"\"\"\n    This method is XXX . It is a global method.\n" ++
      "    \"\"\"\n\n    return 1\n"
    let result := top.documentFile Parser.indentation {} (none : Option (Toolkit Unit)) 4
      "pkg/mod.py" ⟨0, ()⟩
    top.LinkFree "pkg/mod.py" ∧ result.1 = .ok (.documented 1) ∧
      SameBut ["pkg", "mod.py"] top result.2.1 ∧ result.2.2.calls ≤ 2 ∧
      result.2.1.contentAt ["pkg", "mod.py"] = some written.toUTF8 ∧
      ∃ checked, Parser.indentation 1 written = .ok (.ok checked) ∧ checked.valid = true := by
  intro top written result
  have names : Path.names "pkg/mod.py" = ["pkg", "mod.py"] := by decide
  have parts : (Path.parse "pkg/mod.py").parts = [.name "pkg", .name "mod.py"] := by decide
  have free : top.LinkFree "pkg/mod.py" := by
    intro some leading target link
    rw [parts] at leading
    simp only [List.prefix_cons_iff, List.prefix_nil] at leading
    rcases leading with rfl | ⟨_, rfl, rfl | ⟨_, rfl, rfl⟩⟩ <;> cases link
  have documented : result.1 = .ok (.documented 1) := by decide +kernel
  have bytes : result.2.1.contentAt ["pkg", "mod.py"] = some written.toUTF8 := by decide +kernel
  obtain ⟨frame, calls, _, changed, _⟩ := documentFile_all_or_nothing top Parser.indentation {}
    (none : Option (Toolkit Unit)) 4 "pkg/mod.py" ⟨0, ()⟩ free
  obtain ⟨_, source, outline, extraction, checked, _, _, _, accepted, valid, _, put⟩ :=
    changed 1 documented
  rw [names] at frame put
  have same := String.toByteArray_inj.mp (Option.some.inj (put.symm.trans bytes))
  rw [same] at accepted
  exact ⟨free, documented, frame, calls, bytes, checked, accepted, valid⟩

end AutoDoc.Node
