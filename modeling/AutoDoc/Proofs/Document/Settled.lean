import AutoDoc.Outline.Fixed
import AutoDoc.Proofs.Document.Stages
import AutoDoc.Proofs.Element.Pending

/-!
# When nothing is left to document

For a text that the reader by indentation finds valid, documenting stops with nothing to document
just if no element that lacks documentation has a signature in its range. As long as line numbers
fit 32 bits this says that every definition with a name has documentation.

* `nothingToDocument_iff` — the course of the work on a valid text;
* `settled_iff_fullyDocumented` — the same as a property of the outline.
-/

namespace AutoDoc

open Outline

namespace Outline

/-- The elements of an outline that are to be documented; none if extraction faults. -/
def pending (conventions : Conventions) (o : Outline) : List Element :=
  match o.extract with
  | .error _ => []
  | .ok extraction => (extraction.elements.resolve conventions).toDocument

theorem pending_eq {conventions : Conventions} {o : Outline} {extraction : Extraction}
    (extracted : o.extract = .ok extraction) :
    o.pending conventions = (extraction.elements.resolve conventions).toDocument := by
  unfold pending
  rw [extracted]

end Outline

namespace Document

/-- Nothing is left to document in a text: its elements can be extracted, and none that lacks
documentation has a signature. -/
def Settled (conventions : Conventions) (text : String) : Prop :=
  (∃ extraction, (Outline.read text).extract = .ok extraction) ∧
    ∀ e ∈ (Outline.read text).pending conventions,
      (SourceText.ofText text).hasSignature e = false

namespace Job

variable {σ : Type} (job : Job σ)

/-- How many blocks find a place is decided by the source. -/
theorem revision_inserted (extraction : Extraction) :
    (job.revision extraction).inserted =
      (extraction.elements.resolve job.conventions).toDocument.countP
        (SourceText.ofText job.source).hasSignature := by
  obtain ⟨jobs, elements, run⟩ := SourceText.revise_eq_spliceAll job.conventions job.toolkit
    (SourceText.ofText job.source) (extraction.elements.resolve job.conventions).toDocument
    job.progress.toolkit
  have descending := (extraction.elements.resolve job.conventions).toDocument_descending
  rw [← elements] at descending ⊢
  have flags := (SourceText.ofText job.source).spliceAll_modified jobs descending
  have counted := congrArg (List.countP id) flags
  rw [List.countP_map, List.countP_map] at counted
  rw [List.countP_map, ← Function.id_comp (SourceText.hasSignature _ ∘ _)]
  unfold revision Revision.inserted
  rw [run]
  exact counted

/-- With the reader by indentation there is nothing to document just if the text is settled. -/
theorem nothingToDocument_iff {text : String} {conventions : Conventions} {width : Nat}
    {progress : Progress σ} (valid : (Outline.read text).valid = true)
    (written : (SourceText.ofText text).isBlank = false) :
    Course ⟨Parser.indentation, conventions, none, width, text, progress⟩
        (.error (.failed .nothingToDocument)) ↔ Settled conventions text := by
  constructor
  · intro course
    generalize ended : (Except.error (Stop.failed .nothingToDocument) : Except Stop Draft) =
      result at course
    cases course with
    | noDefinitions reply _ _ none =>
      cases reply
      simp only [hasNoDefinitions, Bool.and_eq_true, List.isEmpty_iff] at none
      have fits : (Outline.read text).FitsRanges := by
        simp [FitsRanges, definitions, none]
      obtain ⟨extraction, extracted⟩ := extract_ok fits
      refine ⟨⟨extraction, extracted⟩, ?_⟩
      intro e member
      rw [pending_eq extracted] at member
      obtain ⟨d, inOutline, _⟩ := toDocument_given extracted member
      simp [definitions, none] at inOutline
    | @noPlace _ extraction parsed extracted none =>
      have reply := parsed.reply
      cases reply
      refine ⟨⟨extraction, extracted⟩, ?_⟩
      rw [revision_inserted, List.countP_eq_zero] at none
      rw [pending_eq extracted]
      intro e member
      simpa using none e member
    | _ => cases ended
  · rintro ⟨⟨extraction, extracted⟩, absent⟩
    rw [pending_eq extracted] at absent
    cases definitions : (Outline.read text).hasNoDefinitions with
    | true => exact Course.noDefinitions rfl valid written definitions
    | false =>
      refine Course.noPlace ⟨rfl, valid, written, definitions⟩ extracted ?_
      rw [revision_inserted, List.countP_eq_zero]
      intro e member
      simpa using absent e member

end Job

/-! ### Headers of a text -/

section

variable {text : String} (conventions : Conventions) {i : Nat} {l : ScannedLine}
  {rest : List ScannedLine}

/-- A header of a text and the lines of its definition, which are all in the text. -/
theorem definition_lines (short : (SourceText.ofText text).size < UInt32.size)
    (found : (ScannedLine.scan (SourceText.ofText text)).1.drop i = l :: rest) :
    (lineNumber i).toNat = i + 1 ∧
      (lineNumber (i + (bodyOf l.indent rest).length)).toNat =
        i + (bodyOf l.indent rest).length + 1 ∧
      i + (bodyOf l.indent rest).length < (SourceText.ofText text).size := by
  have total := congrArg List.length found
  rw [List.length_drop, ScannedLine.scan, ScannedLine.scanFrom_length, List.length_cons] at total
  have body := ScannedLine.bodyOf_length_le l.indent rest
  unfold SourceText.size at short ⊢
  have inside : i + (bodyOf l.indent rest).length < (SourceText.ofText text).lines.length := by
    omega
  exact ⟨ScannedLine.lineNumber_toNat (by omega), ScannedLine.lineNumber_toNat (by omega), inside⟩

/-- The line of a header ends with a colon, so its range has a signature. -/
theorem colonAt_header (valid : (Outline.read text).valid = true)
    (found : (ScannedLine.scan (SourceText.ofText text)).1.drop i = l :: rest)
    (header : l.isHeader = true) : Splice.colonAt (SourceText.ofText text) i = true := by
  have nested := (ScannedLine.read_valid valid).2.1
  rw [← List.take_append_drop i (ScannedLine.scan _).1, found] at nested
  have colon := ScannedLine.wellNested_header nested header
  obtain ⟨line, more, split, rfl, _⟩ := ScannedLine.scanFrom_at found
  have here : (SourceText.ofText text).lines[i]? = some line := by
    rw [← List.head?_drop, split]
    rfl
  simp only [Splice.colonAt, SourceText.line?, here, Option.any_some]
  simpa [Splice.endsWithColon, ScannedLine.opensBlock, ScannedLine.trimmed, ScannedLine.ofLine,
    Text.trim] using colon

/-- The element of a header has its signature there. -/
theorem signatureOf_header (valid : (Outline.read text).valid = true)
    (short : (SourceText.ofText text).size < UInt32.size)
    (found : (ScannedLine.scan (SourceText.ofText text)).1.drop i = l :: rest)
    (header : l.isHeader = true) {e : Element} (gives : (l.definition i rest).Gives e) :
    e.startLine.toNat = i + 1 ∧ (SourceText.ofText text).signatureOf e = some i := by
  obtain ⟨first, last, _⟩ := definition_lines short found
  have startLine := Option.some.inj gives.startLine
  have endLine := Option.some.inj gives.endLine
  rw [startLine] at first
  rw [endLine] at last
  refine ⟨first, ?_⟩
  unfold SourceText.signatureOf
  apply Splice.findSignature_eq_some_iff.mpr
  rw [first, last]
  refine ⟨by omega, by omega, colonAt_header valid found header, ?_⟩
  intro j low high
  omega

/-- A header whose definition is named and lacks documentation is to be documented. -/
theorem pending_of_header (valid : (Outline.read text).valid = true)
    (short : (SourceText.ofText text).size < UInt32.size) {extraction : Extraction}
    (extracted : (Outline.read text).extract = .ok extraction)
    (found : (ScannedLine.scan (SourceText.ofText text)).1.drop i = l :: rest)
    (header : l.isHeader = true) (named : (l.definition i rest).isNamed = true)
    (undocumented : (l.definition i rest).isDocumented = false) :
    ∃ e ∈ (Outline.read text).pending conventions, (l.definition i rest).Gives e := by
  rw [pending_eq extracted]
  obtain ⟨first, last, _⟩ := definition_lines short found
  refine exists_toDocument extracted
    ((ScannedLine.mem_definitions_read valid).mpr ⟨i, l, rest, found, header, rfl⟩)
    ⟨named, _, _, rfl, rfl, ?_⟩ undocumented ?_
  · rw [UInt32.lt_iff_toNat_lt, first, last]
    omega
  · intro other member same
    obtain ⟨j, m, behind, atJ, _, rfl⟩ := (ScannedLine.mem_definitions_read valid).mp member
    obtain ⟨firstJ, _⟩ := definition_lines short atJ
    have lines : lineNumber j = lineNumber i := Option.some.inj same
    rw [lines, first] at firstJ
    obtain rfl : i = j := by omega
    rw [found] at atJ
    cases atJ
    rfl

/-- An element to document stands at a header, which is its signature. -/
theorem header_of_pending (valid : (Outline.read text).valid = true)
    (short : (SourceText.ofText text).size < UInt32.size) {extraction : Extraction}
    (extracted : (Outline.read text).extract = .ok extraction) {e : Element}
    (due : e ∈ (Outline.read text).pending conventions) :
    ∃ i l rest, (ScannedLine.scan (SourceText.ofText text)).1.drop i = l :: rest ∧
      l.isHeader = true ∧ e.startLine.toNat = i + 1 ∧
      (SourceText.ofText text).signatureOf e = some i := by
  rw [pending_eq extracted] at due
  obtain ⟨d, inOutline, gives, _⟩ := toDocument_given extracted due
  obtain ⟨i, l, rest, found, header, rfl⟩ :=
    (ScannedLine.mem_definitions_read valid).mp inOutline
  obtain ⟨start, signature⟩ := signatureOf_header valid short found header gives
  exact ⟨i, l, rest, found, header, start, signature⟩

/-- No definition of a text whose line numbers fit has too many lines to be extracted. -/
theorem fitsRanges_read (valid : (Outline.read text).valid = true)
    (short : (SourceText.ofText text).size < UInt32.size) : (Outline.read text).FitsRanges := by
  intro d member first last atFirst atLast whole
  obtain ⟨i, l, rest, found, _, rfl⟩ := (ScannedLine.mem_definitions_read valid).mp member
  obtain ⟨low, high, inside⟩ := definition_lines short found
  rw [Option.some.inj atFirst] at low
  rw [Option.some.inj atLast] at high
  have difference := congrArg UInt32.toNat whole
  rw [UInt32.toNat_sub_of_le _ _ (by rw [UInt32.le_iff_toNat_le]; omega), low, high] at difference
  have literal : (4294967295 : UInt32).toNat = 4294967295 := rfl
  have size : UInt32.size = 4294967296 := rfl
  omega

/-- As long as line numbers fit, nothing is left to document just if every definition with a name
has documentation. -/
theorem settled_iff_fullyDocumented (valid : (Outline.read text).valid = true)
    (short : (SourceText.ofText text).size < UInt32.size) :
    Settled conventions text ↔ (Outline.read text).FullyDocumented := by
  obtain ⟨extraction, extracted⟩ := extract_ok (fitsRanges_read valid short)
  constructor
  · rintro ⟨_, absent⟩ d member named
    obtain ⟨i, l, rest, found, header, rfl⟩ := (ScannedLine.mem_definitions_read valid).mp member
    by_contra undocumented
    obtain ⟨e, due, gives⟩ := pending_of_header conventions valid short extracted
      found header named (by simpa using undocumented)
    have signature := (signatureOf_header valid short found header gives).2
    have none := absent e due
    rw [← SourceText.signatureOf_isSome, signature] at none
    cases none
  · intro documented
    refine ⟨⟨extraction, extracted⟩, ?_⟩
    intro e member
    rw [pending_eq extracted] at member
    obtain ⟨d, inOutline, gives, undocumented⟩ := toDocument_given extracted member
    rw [documented d inOutline gives.named] at undocumented
    cases undocumented

end

end Document

end AutoDoc
