import AutoDoc.Outline.Fixed
import AutoDoc.Proofs.Document.Stages
import AutoDoc.Proofs.Revision.Basic

/-!
# Documenting loses no line

A line is disposable if it is blank or made of quote characters. All other lines of a source
survive every revision, in their order, and the only lines of that kind that a revision adds are
those of the blocks that were spliced in. Nothing is assumed about the elements: their ranges may
overlap, lie outside the text or share a signature.

* `spliceInto_keeps` — what one splice keeps and adds;
* `spliceAll_keeps` — what a run of splices keeps and adds, by induction on the run;
* `documenting_keeps_lines` — the same for the revision of a source, and how the text that is
  written comes from it.
-/

namespace AutoDoc

open Splice

def Splice.kept (lines : List String) : List String := lines.filter fun line => !isDisposable line

/-- The lines of the blocks that found a place. -/
def Revision.insertedLines (r : Revision) : List String :=
  (r.steps.filter (·.outcome.modified)).flatMap (·.block)

namespace Splice

theorem kept_append (a b : List String) : kept (a ++ b) = kept a ++ kept b :=
  List.filter_append _ _

theorem kept_sublist (lines : List String) : (kept lines).Sublist lines :=
  List.filter_sublist

theorem kept_idem (lines : List String) : kept (kept lines) = kept lines := by
  simp [kept]

theorem kept_of_disposable {lines : List String}
    (disposable : ∀ line ∈ lines, isDisposable line = true) : kept lines = [] := by
  apply List.filter_eq_nil_iff.mpr
  intro line member
  simp [disposable line member]

theorem kept_emptyLine : kept [""] = [] := by
  decide

/-- Leaving out a disposable run does not change what is kept. -/
theorem kept_drop_run {lines : List String} {i j : Nat} (ordered : i ≤ j)
    (disposable : ∀ line ∈ (lines.take j).drop i, isDisposable line = true) :
    kept lines = kept (lines.take i) ++ kept (lines.drop j) := by
  have parts : lines = lines.take i ++ (lines.take j).drop i ++ lines.drop j := by
    have front : lines.take j = lines.take i ++ (lines.take j).drop i := by
      conv_lhs => rw [← List.take_append_drop i (lines.take j)]
      rw [List.take_take, Nat.min_eq_left ordered]
    rw [← front, List.take_append_drop]
  conv_lhs => rw [parts]
  rw [kept_append, kept_append, kept_of_disposable disposable, List.append_nil]

end Splice

namespace SourceText

/-- One splice keeps every line that is not disposable, in order, and adds those of its block if it
found a place. -/
theorem spliceInto_keeps (text : SourceText) (e : Element) (block : List String) :
    (kept text.lines).Sublist (text.spliceInto e block).2.lines ∧
      (kept (text.spliceInto e block).2.lines).Perm
        (kept text.lines ++
          if (text.spliceInto e block).1.modified then kept block else []) := by
  unfold spliceInto
  rcases splice_cases text e.startLine.toNat e.endLine.toNat block with
    ⟨_, unchanged⟩ | ⟨_, outcome, i, j, _, modified, _, ordered, _, disposable, edited⟩
  · rw [unchanged]
    refine ⟨kept_sublist _, ?_⟩
    simp [Outcome.modified]
  · rw [edited, kept_drop_run ordered disposable]
    refine ⟨?_, ?_⟩
    · rw [List.append_assoc]
      refine List.Sublist.append (kept_sublist _) ?_
      exact (kept_sublist _).trans (List.sublist_append_right _ _)
    · simp only [modified, if_true, kept_append, kept_emptyLine, List.append_assoc]
      exact List.Perm.append_left _ List.perm_append_comm

/-- A run of splices keeps every line that is not disposable, in order, and adds those of the blocks
that found a place. -/
theorem spliceAll_keeps (text : SourceText) (jobs : List (Element × List String)) :
    (kept text.lines).Sublist (text.spliceAll jobs).text.lines ∧
      (kept (text.spliceAll jobs).text.lines).Perm
        (kept text.lines ++ kept (text.spliceAll jobs).insertedLines) := by
  induction jobs generalizing text with
  | nil =>
    refine ⟨kept_sublist _, ?_⟩
    simp [Revision.insertedLines, kept]
  | cons job rest ih =>
    obtain ⟨keeps, adds⟩ := text.spliceInto_keeps job.1 job.2
    obtain ⟨laterKeeps, laterAdds⟩ := ih (text.spliceInto job.1 job.2).2
    rw [spliceAll_cons]
    refine ⟨?_, ?_⟩
    · -- Kept lines are kept again by the rest of the run.
      have again : (kept text.lines).Sublist (kept (text.spliceInto job.1 job.2).2.lines) := by
        rw [← kept_idem]
        exact keeps.filter _
      exact again.trans laterKeeps
    · have lines : kept (Revision.mk (⟨job.1, job.2, (text.spliceInto job.1 job.2).1⟩ ::
            ((text.spliceInto job.1 job.2).2.spliceAll rest).steps)
            ((text.spliceInto job.1 job.2).2.spliceAll rest).text).insertedLines =
          (if (text.spliceInto job.1 job.2).1.modified then kept job.2 else []) ++
            kept ((text.spliceInto job.1 job.2).2.spliceAll rest).insertedLines := by
        cases modified : (text.spliceInto job.1 job.2).1.modified <;>
          simp [Revision.insertedLines, modified, kept_append]
      rw [lines, ← List.append_assoc]
      exact laterAdds.trans (adds.append_right _)

end SourceText

open Document in
/-- Documenting loses and doubles no line. Whatever the parser reports about a source and whatever
the toolkit answers, the lines of the source that are not disposable are in the revision, in order,
and together with those of the blocks that found a place they are all such lines of it. When the
file is documented, what is written is the revision with every tab replaced by spaces, its lines
joined with newlines. -/
theorem documenting_keeps_lines {σ : Type} (job : Document.Job σ) (outline : Outline)
    (extraction : Extraction) (extracted : outline.extract = .ok extraction) :
    let before := (SourceText.ofText job.source).lines
    let after := (job.revision extraction).text.lines
    (kept before).Sublist after ∧
      (kept after).Perm (kept before ++ kept (job.revision extraction).insertedLines) ∧
      ∀ (top tree : Node) (path : String) (inserted : Nat) (progress : Progress σ),
        top.readText path = .ok job.source → job.firstReply = .ok (.ok outline) →
        top.documentFile job.parser job.conventions job.toolkit job.indentWidth path job.progress =
          (.ok (.documented inserted), tree, progress) →
        top.writeText path
            (String.intercalate "\n" (after.map (SourceText.foldLine job.indentWidth))) =
          .ok tree := by
  intro before after
  obtain ⟨jobs, _, run⟩ := SourceText.revise_eq_spliceAll job.conventions job.toolkit
    (SourceText.ofText job.source) (extraction.elements.resolve job.conventions).toDocument
    job.progress.toolkit
  obtain ⟨keeps, adds⟩ := (SourceText.ofText job.source).spliceAll_keeps jobs
  rw [← run] at keeps adds
  refine ⟨keeps, adds, ?_⟩
  intro top tree path inserted progress read reply documented
  obtain ⟨source, place, parsed, found, checked, again, located, held, revised, _, _, _, written⟩ :=
    Node.documentFile_documented documented
  obtain rfl : job.source = source := Except.ok.inj (read.symm.trans again)
  obtain rfl : outline = parsed := by
    simpa using reply.symm.trans revised.reply
  obtain rfl : extraction = found := Except.ok.inj (extracted.symm.trans revised.extracted)
  rw [written]
  exact Node.writeText_after_read located held _

/-- Two functions whose ranges overlap and reach beyond the text, one with an empty string below its
header: both blocks are spliced in, and the lines with code stay. -/
theorem documenting_keeps_lines_overlapping :
    let outline : Outline := ⟨true, [],
      [{ name := some "f", startLine := some 1, endLine := some 9 },
        { name := some "g", startLine := some 2, endLine := some 7 }], []⟩
    let job : Document.Job Unit :=
      ⟨Parser.fixed outline none, {}, none, 4,
        "def f():\n\"\"\"\n\"\"\"\n    x = 1\ndef g():\n    pass", ⟨0, ()⟩⟩
    ∃ extraction, outline.extract = .ok extraction ∧
      (job.revision extraction).inserted = 2 ∧
      ["def f():", "    x = 1", "def g():", "    pass"].Sublist
        (job.revision extraction).text.lines := by
  intro outline job
  obtain ⟨extraction, extracted, both⟩ : ∃ extraction, outline.extract = .ok extraction ∧
      (job.revision extraction).inserted = 2 := ⟨_, rfl, by decide +kernel⟩
  have code : kept (SourceText.ofText job.source).lines =
      ["def f():", "    x = 1", "def g():", "    pass"] := by decide +kernel
  refine ⟨extraction, extracted, both, ?_⟩
  rw [← code]
  exact (documenting_keeps_lines job outline extraction extracted).1

end AutoDoc
