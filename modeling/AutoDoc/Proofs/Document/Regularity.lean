import AutoDoc.Proofs.Docstring.Inline
import AutoDoc.Proofs.Document.Placement
import AutoDoc.Proofs.Document.Repetition
import AutoDoc.Proofs.Outline.Nesting
import Mathlib.Data.List.Chain

/-!
# Regularly indented sources

A source is regularly indented if every block is a fixed number of columns deeper than the line that
opens it. The depth of a documentation block counts enclosing definitions only, so it stands where
the body stands just if the header is indented once for each enclosing definition, that is if no
other block stands around. Then the documented source is valid, and else it is not
(`valid_updated_iff`).
-/

namespace AutoDoc

open Outline ScannedLine

namespace ScannedLine

/-- The line of code behind every line that opens a block, and with it the block, is `width` columns
deeper. -/
def Regular (width : Nat) (lines : List ScannedLine) : Prop :=
  (lines.filter isCode).IsChain fun l next => l.opensBlock = true → next.indent = l.indent + width

instance (width : Nat) (lines : List ScannedLine) : Decidable (Regular width lines) :=
  inferInstanceAs (Decidable (List.IsChain _ _))

/-- In regular code the line behind one that opens a block is deeper by one width. -/
theorem Regular.deeper {width : Nat} {before rest : List ScannedLine} {l next : ScannedLine}
    (regular : Regular width (before ++ l :: rest)) (code : l.isCode = true)
    (opens : l.opensBlock = true) (follows : rest.find? isCode = some next) :
    next.indent = l.indent + width := by
  unfold Regular at regular
  rw [List.filter_append, List.filter_cons_of_pos code, List.isChain_append] at regular
  have behind := regular.2.1
  rw [← List.head?_filter] at follows
  cases lines : rest.filter isCode with
  | nil => simp [lines] at follows
  | cons first others =>
    rw [lines] at behind follows
    obtain rfl : first = next := by simpa using follows
    exact (List.isChain_cons_cons.mp behind).1 opens

theorem indentFrom_spaces (column depth : Nat) {c : Char} (cs : List Char) (dark : c ≠ ' ')
    (untabbed : c ≠ '\t') :
    indentFrom column (List.replicate depth ' ' ++ c :: cs) = column + depth := by
  induction depth generalizing column with
  | zero => simp [indentFrom, dark, untabbed]
  | succ depth ih =>
    rw [List.replicate_succ, List.cons_append, indentFrom, if_pos rfl, ih]
    omega

theorem indentFrom_le {cs : List Char} (column : Nat) (untabbed : '\t' ∉ cs) :
    indentFrom column cs ≤ column + cs.length := by
  induction cs generalizing column with
  | nil => exact Nat.le_refl _
  | cons c cs ih =>
    simp only [List.mem_cons, not_or] at untabbed
    rw [indentFrom, List.length_cons]
    split
    next =>
      have := ih (column + 1) untabbed.2
      omega
    next =>
      rw [if_neg (Ne.symm untabbed.1)]
      omega

end ScannedLine

namespace Docstring

theorem foldChars_tabs (width depth : Nat) :
    Text.foldChars width (List.replicate depth '\t') = List.replicate (width * depth) ' ' := by
  induction depth with
  | zero => rfl
  | succ depth ih =>
    rw [List.replicate_succ, Text.foldChars_tab, ih, ← List.replicate_add, Nat.mul_succ,
      Nat.add_comm]

/-- The first line of a block whose tabs were folded. -/
def foldedDelimiter (width : Nat) (e : Element) : String :=
  SourceText.foldLine width (indented e.bodyDepth delimiter)

theorem indentOf_foldedDelimiter (width : Nat) (e : Element) :
    ScannedLine.indentOf (foldedDelimiter width e) = width * e.bodyDepth := by
  rw [ScannedLine.indentOf, foldedDelimiter, Text.toList_foldLine, toList_indented (by decide),
    Text.foldChars_append, foldChars_tabs]
  have quotes : Text.foldChars width delimiter.toList = '"' :: ['"', '"'] := rfl
  rw [quotes, ScannedLine.indentFrom_spaces 0 _ _ (by decide) (by decide), Nat.zero_add]

/-- With its tabs folded the block of a quiet element is led by its opening delimiter. -/
theorem ledBy_plainBlock {conventions : Conventions} {e : Element} {width : Nat}
    (positive : 0 < width) (quiet : Quiet e) :
    ScannedLine.LedBy ((plainBlock conventions e).map (SourceText.foldLine width))
      (ScannedLine.ofLine none (foldedDelimiter width e)) := by
  have inline : ∀ line ∈ plainText conventions e, Inline line := plainText_inline quiet
  have block := isBlock_plain positive fun line member => (inline line member).isOdd
  have lines : (plainBlock conventions e).map (SourceText.foldLine width) =
      foldedDelimiter width e :: (SourceText.foldLine width (indented e.bodyDepth
        (plainOpening conventions e)) :: (plainSections conventions e).map
          (SourceText.foldLine width)) ++ [foldedDelimiter width e] := by
    simp [plainBlock, plainText, foldedDelimiter]
  rw [lines]
  exact block.ledBy

end Docstring

namespace Document

/-- A valid source that is not blank, without tabs and triple quotes, in which every block is `width`
columns deeper than the line that opens it. Its line numbers fit 32 bits and it fits the memory, and
no default that is put in quotes makes a delimiter with them. -/
structure RegularSource (conventions : Conventions) (width : Nat) (source : String) : Prop where
  positive : 1 ≤ width
  valid : (Outline.read source).valid = true
  written : (SourceText.ofText source).isBlank = false
  untabbed : '\t' ∉ source.toList
  stringless : TripleQuote.Absent source
  regular : Regular width (scan (SourceText.ofText source)).1
  short : (SourceText.ofText source).size < UInt32.size
  held : source.toList.length < Word.limit63
  defaults : ∀ e ∈ (Outline.read source).pending conventions, ∀ p ∈ e.parameters,
    Docstring.PlainDefault p

instance (conventions : Conventions) (width : Nat) (source : String) :
    Decidable (RegularSource conventions width source) :=
  decidable_of_iff (_ ∧ _ ∧ _ ∧ _ ∧ _ ∧ _ ∧ _ ∧ _ ∧ _)
    ⟨fun ⟨a, b, c, d, e, f, g, h, i⟩ => ⟨a, b, c, d, e, f, g, h, i⟩,
      fun ⟨a, b, c, d, e, f, g, h, i⟩ => ⟨a, b, c, d, e, f, g, h, i⟩⟩

/-- The header of an element is indented once for each definition around it, so nothing but
definitions stands around it. -/
def standsInDefinitions (width : Nat) (text : SourceText) (e : Element) : Bool :=
  (text.line? (e.startLine.toNat - 1)).any fun line => indentOf line == width * e.context.length

section

variable {σ : Type} {conventions : Conventions} {width : Nat} {source : String}
  {extraction : Extraction} {e : Element}

/-- The elements to document in a regular source leave the strings of their blocks open. -/
theorem RegularSource.quiet (regular : RegularSource conventions width source)
    (extracted : (Outline.read source).extract = .ok extraction)
    (due : e ∈ (Outline.read source).pending conventions) : Docstring.Quiet e := by
  have texts : ∀ e ∈ considered conventions extraction, e.Texts Docstring.Inline ∧
      ∀ c ∈ e.constructor, c ∈ (extraction.elements.resolve conventions).functions :=
    considered_texts (fun within inline => Docstring.Inline.stretch within inline) (by decide)
      (read_texts (fun within inline => Docstring.Inline.stretch within inline)
        fun line member => Docstring.inline_of_line regular.stringless member) extracted
  have perm := toDocument_perm conventions extracted
    (startLines_nodup regular.valid regular.short)
    (undocumented_of_absent regular.valid regular.stringless)
  rw [pending_eq extracted] at due
  obtain ⟨own, constructors⟩ := texts e (perm.mem_iff.mp due)
  refine ⟨own, regular.defaults e (by rwa [pending_eq extracted]), ?_⟩
  intro c built
  have isDue : c ∈ (extraction.elements.resolve conventions).toDocument :=
    perm.mem_iff.mpr (List.mem_append_right _ (constructors c built))
  have considered := perm.mem_iff.mp isDue
  refine ⟨by simpa using (List.mem_filter.mp isDue).2, fun p given => ⟨?_, ?_⟩⟩
  · exact (texts c considered).1.parameters p given
  · exact regular.defaults c (by rwa [pending_eq extracted]) p given

/-- The header of an element to document, with the line of code behind it. -/
theorem RegularSource.header (regular : RegularSource conventions width source)
    (extracted : (Outline.read source).extract = .ok extraction)
    (due : e ∈ (Outline.read source).pending conventions) :
    ∃ i line rest next, e.startLine.toNat = i + 1 ∧
      (SourceText.ofText source).line? i = some line ∧
      (scan (SourceText.ofText source)).1.drop i = ofLine none line :: rest ∧
      (ofLine none line).isHeader = true ∧ rest.find? isCode = some next ∧
      next.indent = indentOf line + width := by
  obtain ⟨i, l, rest, found, header, start, _⟩ :=
    header_of_pending conventions regular.valid regular.short extracted due
  have nested := (read_valid regular.valid).2.1
  have chain := regular.regular
  rw [← List.take_append_drop i (scan _).1, found] at nested chain
  obtain ⟨x, inRest, code⟩ := wellNested_follows nested (isCode_of_isHeader header)
    (wellNested_header nested header)
  obtain ⟨next, follows⟩ : ∃ next, rest.find? isCode = some next := by
    rw [← Option.isSome_iff_exists, List.find?_isSome]
    exact ⟨x, inRest, code⟩
  have deeper := chain.deeper (isCode_of_isHeader header) (wellNested_header nested header) follows
  obtain ⟨line, more, split, rfl, _⟩ := scanFrom_at found
  have outside : (scanFrom none ((SourceText.ofText source).lines.take i)).2 = none := by
    rw [scanFrom_absent fun x member => regular.stringless.line (List.mem_of_mem_take member)]
  rw [outside] at found header deeper
  have here : (SourceText.ofText source).line? i = some line := by
    rw [SourceText.line?, ← List.head?_drop, split]
    rfl
  exact ⟨i, line, rest, next, start, here, found, header, follows, deeper⟩

/-- The element that starts on the line with an index. -/
def startingAt (due : List Element) (i : Nat) : Option Element :=
  due.find? fun e => e.startLine.toNat == i + 1

/-- No two elements that are due start on one line, so the one found is the only one. -/
theorem startingAt_eq_some {due : List Element} (descending : due.Pairwise Element.Below) {i : Nat} :
    startingAt due i = some e ↔ e ∈ due ∧ e.startLine.toNat = i + 1 := by
  constructor
  · intro found
    exact ⟨List.mem_of_find?_eq_some found, by simpa using List.find?_some found⟩
  · rintro ⟨member, start⟩
    induction due with
    | nil => cases member
    | cons head rest ih =>
      obtain ⟨first, others⟩ := List.pairwise_cons.mp descending
      unfold startingAt
      rcases List.mem_cons.mp member with rfl | later
      · rw [List.find?_cons_of_pos (by simpa using start)]
      · have order := first e later
        unfold Element.Below at order
        rw [List.find?_cons_of_neg (by simp only [beq_iff_eq]; omega)]
        exact ih others later

/-- The block under a line is that of the element that starts there. -/
theorem blockUnder_spliceAll (text : SourceText) (due : List Element)
    (blockOf : Element → List String) (i : Nat) :
    (text.spliceAll (due.map fun e => (e, blockOf e))).blockUnder i =
      (startingAt due i).map blockOf := by
  induction due generalizing text with
  | nil => rfl
  | cons e rest ih =>
    rw [List.map_cons, SourceText.spliceAll_cons]
    unfold Revision.blockUnder startingAt
    by_cases here : e.startLine.toNat = i + 1
    · simp [here]
    · rw [List.find?_cons_of_neg (by simpa using here), List.find?_cons_of_neg (by simpa using here)]
      exact ih _

/-- The revision of a regular source puts the blocks of its elements under their headers. -/
theorem RegularSource.revision_eq (regular : RegularSource conventions width source)
    (progress : Progress σ) (extracted : (Outline.read source).extract = .ok extraction) :
    let due := (Outline.read source).pending conventions
    let revision := (plainJob conventions width source progress).revision extraction
    revision.steps.map (·.element) = due ∧
      (∀ step ∈ revision.steps, step.outcome = .inserted step.element.startLine.toNat) ∧
      revision.text.lines = SourceText.underLines
        (fun i => (startingAt due i).map (Docstring.plainBlock conventions)) false 0
        (SourceText.ofText source).lines := by
  intro due revision
  have run : revision = (SourceText.ofText source).spliceAll
      (due.map fun e => (e, Docstring.plainBlock conventions e)) := by
    simp only [due, pending_eq extracted]
    exact SourceText.revise_plain conventions (SourceText.ofText source) _ progress.toolkit
  have elements : (due.map fun e => (e, Docstring.plainBlock conventions e)).map (·.1) = due := by
    rw [List.map_map]
    exact List.map_id due
  have sites : ∀ e ∈ due, (SourceText.ofText source).OpenSite e := by
    intro e member
    simp only [due, pending_eq extracted] at member
    exact (openSite_of_due conventions regular.valid regular.short regular.stringless extracted
      member).1
  have descending : due.Pairwise Element.Below := by
    simp only [due, pending_eq extracted]
    exact Elements.toDocument_descending _
  obtain ⟨outcomes, lines⟩ := (SourceText.ofText source).spliceAll_under
    (due.map fun e => (e, Docstring.plainBlock conventions e))
    (by rw [elements]; exact sites) (by rw [elements]; exact descending)
  have blocks : ((SourceText.ofText source).spliceAll
      (due.map fun e => (e, Docstring.plainBlock conventions e))).blockUnder =
        fun i => (startingAt due i).map (Docstring.plainBlock conventions) :=
    funext fun i => blockUnder_spliceAll _ due _ i
  rw [blocks] at lines
  rw [run]
  exact ⟨by rw [SourceText.spliceAll_elements, elements], outcomes, lines⟩

/-- The text that the work on a regular source leads to: the source with the blocks of its elements,
tabs folded, under their headers. -/
theorem RegularSource.updated_lines (regular : RegularSource conventions width source)
    (progress : Progress σ) (extracted : (Outline.read source).extract = .ok extraction) :
    (SourceText.ofText ((plainJob conventions width source progress).updated extraction)).lines =
      SourceText.underLines (fun i =>
        (startingAt ((Outline.read source).pending conventions) i).map fun e =>
          (Docstring.plainBlock conventions e).map (SourceText.foldLine width))
        false 0 (SourceText.ofText source).lines := by
  obtain ⟨_, _, lines⟩ := regular.revision_eq progress extracted
  have text : SourceText.ofText ((plainJob conventions width source progress).updated extraction) =
      ((plainJob conventions width source progress).revision extraction).text.foldTabs width := by
    refine SourceText.ofText_toText ?_ ?_
    · rw [SourceText.foldTabs, lines, ne_eq, List.map_eq_nil_iff]
      exact SourceText.underLines_ne_nil (SourceText.lines_ofText_ne_nil source)
    · intro line member
      obtain ⟨x, inText, rfl⟩ := List.mem_map.mp member
      refine SourceText.foldLine_noNewline ?_
      rw [lines] at inText
      rcases SourceText.mem_underLines inText with inSource | rfl | ⟨i, block, here, inBlock⟩
      · exact SourceText.ofText_noNewline source x inSource
      · exact List.not_mem_nil
      · obtain ⟨e, found, rfl⟩ := Option.map_eq_some_iff.mp here
        have quiet := regular.quiet extracted (List.mem_of_find?_eq_some found)
        exact Docstring.plainBlock_noNewline (fun line within =>
          (Docstring.plainText_inline quiet line within).1) x inBlock
  have untabbed : (SourceText.ofText source).lines.map (SourceText.foldLine width) =
      (SourceText.ofText source).lines := by
    conv_rhs => rw [← List.map_id (SourceText.ofText source).lines]
    refine List.map_congr_left fun line member => ?_
    have plain : '\t' ∉ line.toList := fun tab =>
      regular.untabbed ((SourceText.line_within member).subset tab)
    apply String.toList_inj.mp
    rw [Text.toList_foldLine, Text.foldChars_untabbed plain]
    rfl
  rw [text, SourceText.foldTabs, lines, SourceText.underLines_map rfl
    (SourceText.isBlank_foldLine width), untabbed]
  simp only [Option.map_map, Function.comp_def]

theorem read_valid_eq (text : String) :
    (Outline.read text).valid = ((scan (SourceText.ofText text)).2.isNone &&
      wellNested (scan (SourceText.ofText text)).1) := by
  unfold Outline.read
  dsimp only
  split
  next sound => rw [sound]; rfl
  next bad => exact ((Bool.not_eq_true _).mp bad).symm

/-- The line of code that leads the block of the element that starts on the line with an index. -/
def leadAt (width : Nat) (due : List Element) (i : Nat) : Option ScannedLine :=
  (startingAt due i).map fun e => ofLine none (Docstring.foldedDelimiter width e)

/-- Every block stands behind a line that opens a block of the source. -/
theorem RegularSource.leads (regular : RegularSource conventions width source)
    (extracted : (Outline.read source).extract = .ok extraction) :
    LeadsBlocks (leadAt width ((Outline.read source).pending conventions))
      (scan (SourceText.ofText source)).1 := by
  intro i d here
  obtain ⟨e, found, rfl⟩ := Option.map_eq_some_iff.mp here
  have due := List.mem_of_find?_eq_some found
  have start : e.startLine.toNat = i + 1 := by simpa using List.find?_some found
  obtain ⟨j, line, rest, next, startJ, _, atHeader, header, follows, deeper⟩ :=
    regular.header extracted due
  obtain rfl : j = i := by omega
  have nested := (read_valid regular.valid).2.1
  rw [← List.take_append_drop j (scan _).1, atHeader] at nested
  refine ⟨isLead_of_alone (Docstring.alone_delimiter width e.bodyDepth), _, rest, next, atHeader,
    isCode_of_isHeader header, wellNested_header nested header, follows, ?_⟩
  have positive := regular.positive
  rw [deeper]
  exact Nat.lt_add_of_pos_right positive

/-- The leads fit just if every element to document stands inside definitions only. -/
theorem RegularSource.fits_iff (regular : RegularSource conventions width source)
    (extracted : (Outline.read source).extract = .ok extraction) :
    Fits (leadAt width ((Outline.read source).pending conventions))
        (scan (SourceText.ofText source)).1 ↔
      ∀ e ∈ (Outline.read source).pending conventions,
        standsInDefinitions width (SourceText.ofText source) e = true := by
  have descending : ((Outline.read source).pending conventions).Pairwise Element.Below := by
    rw [pending_eq extracted]
    exact Elements.toDocument_descending _
  have column : ∀ e : Element, (ofLine none (Docstring.foldedDelimiter width e)).indent =
      width * e.context.length + width := by
    intro e
    simp only [ofLine]
    rw [Docstring.indentOf_foldedDelimiter, Element.bodyDepth, Nat.mul_succ]
  constructor
  · intro fits e due
    obtain ⟨i, line, rest, next, start, here, atHeader, _, follows, deeper⟩ :=
      regular.header extracted due
    have lead : leadAt width ((Outline.read source).pending conventions) i =
        some (ofLine none (Docstring.foldedDelimiter width e)) := by
      rw [leadAt, (startingAt_eq_some descending).mpr ⟨due, start⟩, Option.map_some]
    have same := fits i _ lead _ rest next atHeader follows
    rw [column, deeper] at same
    rw [standsInDefinitions, start, Nat.add_sub_cancel, here]
    simpa using (Nat.add_right_cancel same).symm
  · intro stand i d here l behind first atLine found
    obtain ⟨e, starts, rfl⟩ := Option.map_eq_some_iff.mp here
    obtain ⟨due, start⟩ := (startingAt_eq_some descending).mp starts
    obtain ⟨j, line, rest, next, startJ, atIndex, atHeader, _, follows, deeper⟩ :=
      regular.header extracted due
    obtain rfl : j = i := by omega
    rw [atHeader] at atLine
    cases atLine
    rw [follows] at found
    cases found
    have stands := stand e due
    rw [standsInDefinitions, start, Nat.add_sub_cancel, atIndex] at stands
    rw [column, deeper]
    simpa using (by simpa using stands : indentOf line = width * e.context.length).symm

/-- What the work on a regular source leads to is valid just if every element to document stands
inside definitions only. -/
theorem RegularSource.valid_updated_iff (regular : RegularSource conventions width source)
    (progress : Progress σ) (extracted : (Outline.read source).extract = .ok extraction) :
    (Outline.read ((plainJob conventions width source progress).updated extraction)).valid = true ↔
      ∀ e ∈ (Outline.read source).pending conventions,
        standsInDefinitions width (SourceText.ofText source) e = true := by
  have absent : ∀ line ∈ (SourceText.ofText source).lines, TripleQuote.Absent line :=
    fun line member => regular.stringless.line member
  have scanned : (scan (SourceText.ofText source)).1 =
      (SourceText.ofText source).lines.map (ofLine none) := by
    rw [scan, scanFrom_absent absent]
  obtain ⟨closes, seen⟩ := scanFrom_underLines
    (fun i => (startingAt ((Outline.read source).pending conventions) i).map fun e =>
      (Docstring.plainBlock conventions e).map (SourceText.foldLine width))
    (fun block => ofLine none (block.headD "")) false 0 absent
    (by
      intro i block here
      obtain ⟨e, found, rfl⟩ := Option.map_eq_some_iff.mp here
      exact Docstring.ledBy_plainBlock regular.positive
        (regular.quiet extracted (List.mem_of_find?_eq_some found)))
    (by
      intro i line block atLine here
      obtain ⟨e, found, rfl⟩ := Option.map_eq_some_iff.mp here
      have start : e.startLine.toNat = i + 1 := by simpa using List.find?_some found
      obtain ⟨j, header, _, _, startJ, atHeader, _, isHeader, _⟩ :=
        regular.header extracted (List.mem_of_find?_eq_some found)
      obtain rfl : j = i := by omega
      obtain rfl : header = line := Option.some.inj (atHeader.symm.trans atLine)
      exact isCode_of_isHeader isHeader)
  have leads : (fun i => ((startingAt ((Outline.read source).pending conventions) i).map fun e =>
      (Docstring.plainBlock conventions e).map (SourceText.foldLine width)).map
        fun block => ofLine none (block.headD "")) =
      leadAt width ((Outline.read source).pending conventions) := by
    funext i
    rw [Option.map_map]
    rfl
  rw [leads, ← scanned] at seen
  rw [read_valid_eq, scan, regular.updated_lines progress extracted, closes, wellNested, seen,
    ← regular.fits_iff extracted,
    ← nested_led_iff (read_valid regular.valid).2.1 (regular.leads extracted)]
  rfl

/-- A block deeper by `width` has that many characters in front of it. -/
theorem RegularSource.width_lt (regular : RegularSource conventions width source)
    (extracted : (Outline.read source).extract = .ok extraction)
    (due : e ∈ (Outline.read source).pending conventions) : width < Word.limit63 := by
  obtain ⟨i, line, rest, next, _, _, atHeader, _, follows, deeper⟩ := regular.header extracted due
  have inScan : next ∈ (scan (SourceText.ofText source)).1 := by
    refine List.mem_of_mem_drop (i := i) ?_
    rw [atHeader]
    exact List.mem_cons_of_mem _ (List.mem_of_find?_eq_some follows)
  rw [scan, scanFrom_absent fun x member => regular.stringless.line member] at inScan
  obtain ⟨text, inSource, rfl⟩ := List.mem_map.mp inScan
  have within := SourceText.line_within inSource
  have columns := indentFrom_le 0 fun tab => regular.untabbed (within.subset tab)
  have characters := within.length_le
  have held := regular.held
  simp only [ofLine, indentOf] at deeper
  omega

/-- Work on a regular source with elements to document reaches the second reading, with a block for
each of them. -/
theorem RegularSource.revised (regular : RegularSource conventions width source)
    (progress : Progress σ) (extracted : (Outline.read source).extract = .ok extraction)
    (due : e ∈ (Outline.read source).pending conventions) :
    (plainJob conventions width source progress).Revised (Outline.read source) extraction ∧
      ((plainJob conventions width source progress).revision extraction).inserted =
        ((Outline.read source).pending conventions).length := by
  obtain ⟨elements, outcomes, _⟩ := regular.revision_eq progress extracted
  have all : ((plainJob conventions width source progress).revision extraction).inserted =
      ((Outline.read source).pending conventions).length := by
    rw [← elements, List.length_map]
    unfold Revision.inserted
    rw [List.countP_eq_length]
    intro step member
    rw [outcomes step member]
    rfl
  refine ⟨⟨⟨rfl, regular.valid, regular.written, ?_⟩, extracted, ?_, ?_⟩, all⟩
  · rw [← Bool.not_eq_true]
    intro none
    simp only [hasNoDefinitions, Bool.and_eq_true, List.isEmpty_iff] at none
    rw [pending_eq extracted] at due
    obtain ⟨d, inOutline, _⟩ := toDocument_given extracted due
    simp [definitions, none] at inOutline
  · rw [all]
    exact List.length_pos_of_mem due
  · exact regular.width_lt extracted due

end

end Document

end AutoDoc
