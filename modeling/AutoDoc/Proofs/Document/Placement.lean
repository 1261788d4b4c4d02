import AutoDoc.Proofs.Document.Settled
import AutoDoc.Proofs.Element.Distinct
import AutoDoc.Proofs.Outline.Fulfilled
import AutoDoc.Proofs.Revision.Placement
import AutoDoc.Proofs.Text.Stringless
import AutoDoc.Toolkit.Table

/-!
# Every block under its own header

In a valid source without triple quotes nothing is documented and no line opens a string. So every
class and function that is kept is to be documented, and behind each header stands a line of the
body that the splicer finds.

* `startLines_nodup` — definitions start on lines of their own;
* `openSite_of_due` — a block goes directly under the line of every element to document;
* `revision_under_headers` — the text of the revision in closed form.
-/

namespace AutoDoc

open Outline ScannedLine

namespace ScannedLine

/-- No two definitions of a source start on one line. -/
theorem definitionsFrom_startLines {index : Nat} {lines : List ScannedLine}
    (short : index + lines.length < UInt32.size) :
    ((definitionsFrom index lines).map (·.startLine)).Nodup := by
  induction lines generalizing index with
  | nil => simp [definitionsFrom]
  | cons l rest ih =>
    rw [List.length_cons] at short
    have later : ((definitionsFrom (index + 1) rest).map (·.startLine)).Nodup := ih (by omega)
    unfold definitionsFrom
    split
    next =>
      refine List.nodup_cons.mpr ⟨?_, later⟩
      intro member
      obtain ⟨d, inRest, same⟩ := List.mem_map.mp member
      obtain ⟨i, m, behind, found, _, rfl⟩ := mem_definitionsFrom.mp inRest
      have inside : i < rest.length := by
        rw [← List.drop_eq_nil_iff.not.trans Nat.not_le, found]
        exact List.cons_ne_nil _ _
      have numbers : lineNumber (index + 1 + i) = lineNumber index := Option.some.inj same
      have positions := congrArg UInt32.toNat numbers
      rw [lineNumber_toNat (by omega), lineNumber_toNat (by omega)] at positions
      omega
    next => exact later

/-- A line that opens a block is followed by a line of code. -/
theorem wellNested_follows {before rest : List ScannedLine} {l : ScannedLine}
    (nested : wellNested (before ++ l :: rest) = true) (code : l.isCode = true)
    (opens : l.opensBlock = true) : ∃ next ∈ rest, next.isCode = true := by
  obtain ⟨_, stack, _, later⟩ := wellNested_at nested code
  rw [opens] at later
  cases lines : rest.filter isCode with
  | nil =>
    rw [lines] at later
    cases later
  | cons next others => exact ⟨next, List.mem_filter.mp (lines ▸ List.mem_cons_self)⟩

end ScannedLine

namespace Document

section

variable {source : String} {extraction : Extraction} (conventions : Conventions)

/-- Definitions of a source start on lines of their own. -/
theorem startLines_nodup (valid : (Outline.read source).valid = true)
    (short : (SourceText.ofText source).size < UInt32.size) :
    ((Outline.read source).definitions.map (·.startLine)).Nodup := by
  have order := definitions_perm_ofEntries (entriesFrom [] 0 (scan (SourceText.ofText source)).1)
  rw [← (read_valid valid).2.2, entriesFrom_definitions] at order
  refine (order.map _).nodup_iff.mpr (definitionsFrom_startLines ?_)
  rwa [Nat.zero_add, scan, scanFrom_length]

/-- A source without triple quotes documents nothing. -/
theorem undocumented_of_absent (valid : (Outline.read source).valid = true)
    (stringless : TripleQuote.Absent source) :
    ∀ d ∈ (Outline.read source).definitions, d.isDocumented = false := by
  intro d member
  obtain ⟨i, l, rest, found, _, rfl⟩ := (mem_definitions_read valid).mp member
  rw [definition_isDocumented]
  refine documentedIn_absent _ ?_
  intro x inRest
  have inScan : x ∈ (scan (SourceText.ofText source)).1 :=
    List.mem_of_mem_drop (found ▸ List.mem_cons_of_mem _ inRest)
  rw [scan, scanFrom_absent fun line => stringless.line] at inScan
  obtain ⟨line, inSource, rfl⟩ := List.mem_map.mp inScan
  exact quote?_absent (stringless.line inSource) none

/-- Under the header of every element to document a block goes directly. -/
theorem openSite_of_due (valid : (Outline.read source).valid = true)
    (short : (SourceText.ofText source).size < UInt32.size)
    (stringless : TripleQuote.Absent source)
    (extracted : (Outline.read source).extract = .ok extraction) {e : Element}
    (due : e ∈ (extraction.elements.resolve conventions).toDocument) :
    (SourceText.ofText source).OpenSite e ∧ ∃ l rest,
      (scan (SourceText.ofText source)).1.drop (e.startLine.toNat - 1) = l :: rest ∧
        l.isHeader = true := by
  rw [← pending_eq extracted] at due
  obtain ⟨i, l, rest, found, header, start, signature⟩ :=
    header_of_pending conventions valid short extracted due
  have nested := (read_valid valid).2.1
  rw [← List.take_append_drop i (scan _).1, found] at nested
  obtain ⟨next, inRest, code⟩ := wellNested_follows nested (isCode_of_isHeader header)
    (wellNested_header nested header)
  obtain ⟨line, more, split, rfl, rfl⟩ := scanFrom_at found
  have inSource : ∀ x ∈ more, x ∈ (SourceText.ofText source).lines := fun x member =>
    List.mem_of_mem_drop (split ▸ List.mem_cons_of_mem _ member)
  have behind : (SourceText.ofText source).lines.drop (i + 1) = more := by
    rw [← List.drop_drop, split]
    rfl
  refine ⟨⟨by omega, by rw [start]; exact signature, ?_⟩, ?_⟩
  · rw [start, behind]
    cases first : more.dropWhile Text.isBlank with
    | nil =>
      -- The line of code behind the header would be blank.
      rw [scanFrom_absent fun x member => stringless.line (inSource x member)] at inRest
      obtain ⟨x, inMore, rfl⟩ := List.mem_map.mp inRest
      have blank := List.dropWhile_eq_nil_iff.mp first x inMore
      have dark := dark_of_isCode rfl code
      rw [Text.isBlank] at blank
      rw [ofLine, blank] at dark
      cases dark
    | cons x others =>
      have member : x ∈ more := (List.dropWhile_sublist _).subset (first ▸ List.mem_cons_self)
      exact ⟨x, others, rfl, (stringless.line (inSource x member)).not_opensString⟩
  · rw [start]
    exact ⟨_, _, found, header⟩

end

end Document

namespace SourceText

/-- The blocks of a revision are those that the toolkit leads to, in turn. -/
theorem revise_eq_zip {σ : Type} (conventions : Conventions) (toolkit : Option (Toolkit σ))
    (text : SourceText) (elements : List Element) (state : σ) :
    ∃ blocks, blocks = ((elements.mapM (Docstring.block conventions toolkit)).run state).1 ∧
      blocks.length = elements.length ∧
      ((text.revise conventions toolkit elements).run state).1 =
        text.spliceAll (elements.zip blocks) := by
  induction elements generalizing text state with
  | nil => exact ⟨[], rfl, rfl, rfl⟩
  | cons e rest ih =>
    let built := (Docstring.block conventions toolkit e).run state
    obtain ⟨blocks, made, many, run⟩ := ih (text.spliceInto e built.1).2 built.2
    refine ⟨built.1 :: blocks, ?_, by simp [many], ?_⟩
    · rw [List.mapM_cons, made]
      rfl
    · rw [List.zip_cons_cons, spliceAll_cons, ← run]
      rfl

end SourceText

open Document in
/-- Every block lands under its own header. Take a valid source of fewer than 2^32 lines without
triple quotes, and any toolkit. The elements to document are all that are kept; the steps of the
revision take them in turn, with the blocks that the toolkit leads to; each block is inserted
directly behind the line on which its element starts, which is a header. The text of the revision is
the source with each block and an empty line put under its header, in the place of the blank lines
that were there, and every other line as it was. -/
theorem revision_under_headers {σ : Type} (conventions : Conventions) (toolkit : Option (Toolkit σ))
    (state : σ) (source : String) (short : (SourceText.ofText source).size < UInt32.size)
    (valid : (Outline.read source).valid = true) (stringless : TripleQuote.Absent source) :
    ∃ extraction, (Outline.read source).extract = .ok extraction ∧
      let text := SourceText.ofText source
      let kept := extraction.elements.resolve conventions
      let due := kept.toDocument
      let revision := ((text.revise conventions toolkit due).run state).1
      due.Perm (kept.classes ++ kept.functions) ∧
      revision.steps.map (·.element) = due ∧
      revision.steps.map (·.block) =
        ((due.mapM (Docstring.block conventions toolkit)).run state).1 ∧
      (∀ step ∈ revision.steps, step.outcome = .inserted step.element.startLine.toNat ∧
        ∃ header rest, (scan text).1.drop (step.element.startLine.toNat - 1) = header :: rest ∧
          header.isHeader = true) ∧
      revision.text.lines = SourceText.underLines revision.blockUnder false 0 text.lines := by
  obtain ⟨extraction, extracted⟩ := extract_ok (fitsRanges_read valid short)
  refine ⟨extraction, extracted, ?_⟩
  intro text kept due revision
  have sites : ∀ e ∈ due, _ := fun e member =>
    openSite_of_due conventions valid short stringless extracted member
  obtain ⟨blocks, made, many, run⟩ := text.revise_eq_zip conventions toolkit due state
  have run : revision = text.spliceAll (due.zip blocks) := run
  have elements : (due.zip blocks).map (·.1) = due := List.map_fst_zip (Nat.le_of_eq many.symm)
  have steps : revision.steps.map (·.element) = due := by
    rw [run, SourceText.spliceAll_elements, elements]
  obtain ⟨outcomes, lines⟩ := text.spliceAll_under (due.zip blocks)
    (by rw [elements]; exact fun e member => (sites e member).1)
    (by rw [elements]; exact Elements.toDocument_descending _)
  rw [← run] at outcomes lines
  refine ⟨?_, steps, ?_, ?_, lines⟩
  · exact toDocument_perm conventions extracted (startLines_nodup valid short)
      (undocumented_of_absent valid stringless)
  · rw [run, SourceText.spliceAll_blocks, ← made]
    exact List.map_snd_zip (Nat.le_of_eq many)
  · intro step member
    have isDue : step.element ∈ due := steps ▸ List.mem_map_of_mem member
    exact ⟨outcomes step member, (sites _ isDue).2⟩

set_option maxRecDepth 100000 in
/-- A class around a method behind blank lines, with a toolkit that knows the method's verb. -/
theorem revision_under_headers_nested :
    let source := String.intercalate "\n"
      ["class Cart:", "", "  ", "    def fetchItems(self):", "", "        return 0", ""]
    let text := SourceText.ofText source
    let toolkit : Toolkit Unit := TableToolkit.toolkit { verbs := ["fetch"] }
    let written := ["class Cart:", "\t\"\"\"", "\tThis class represents carts.", "", "\tMethods:",
      "\t:method fetchItems: XXX", "\t\"\"\"", "", "    def fetchItems(self):", "\t\t\"\"\"",
      "\t\tThis method is for fetching the items. It is a class method of Cart.", "\t\t\"\"\"", "",
      "        return 0", ""]
    text.size < UInt32.size ∧ (Outline.read source).valid = true ∧ TripleQuote.Absent source ∧
      ∃ extraction, (Outline.read source).extract = .ok extraction ∧
        let due := (extraction.elements.resolve {}).toDocument
        let revision := ((text.revise {} (some toolkit) due).run ()).1
        due.map (·.name) = ["fetchItems", "Cart"] ∧
          (∀ step ∈ revision.steps, step.outcome = .inserted step.element.startLine.toNat) ∧
          revision.text.lines = written := by
  intro source text toolkit written
  have short : text.size < UInt32.size := by decide +kernel
  have valid : (Outline.read source).valid = true := by decide +kernel
  have stringless : TripleQuote.Absent source := by decide +kernel
  obtain ⟨extraction, extracted, _, _, _, outcomes, lines⟩ :=
    revision_under_headers {} (some toolkit) () source short valid stringless
  have computed : ∀ x ∈ (Outline.read source).extract.toOption,
      let due := (x.elements.resolve {}).toDocument
      let revision := ((text.revise {} (some toolkit) due).run ()).1
      due.map (·.name) = ["fetchItems", "Cart"] ∧
        SourceText.underLines revision.blockUnder false 0 text.lines = written := by
    decide +kernel
  obtain ⟨names, under⟩ := computed extraction (by rw [extracted]; rfl)
  exact ⟨short, valid, stringless, extraction, extracted, names, fun step member =>
    (outcomes step member).1, lines.trans under⟩

end AutoDoc
