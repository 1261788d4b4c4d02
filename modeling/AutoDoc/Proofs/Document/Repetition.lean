import AutoDoc.Proofs.Docstring.Plain
import AutoDoc.Proofs.Document.Settled
import AutoDoc.Proofs.Document.Transaction
import AutoDoc.Proofs.Revision.Conservation

/-!
# Documenting a file twice

With the reader by indentation and no toolkit, a file that was documented is left alone the second
time just if nothing is left to document in the text that the first run wrote. This can fail: where
an empty string below a header is followed by another string, the block goes behind both, and the
definition still counts as undocumented (`documentFile_twice_behind_string`).

`Tidy` names sources for which it cannot fail: every block stands directly below its header, and
neither the header nor the lines that the block replaces nor the block itself upset the strings of
the lines around. `Mending` is the invariant of the revision of such a source.
-/

namespace AutoDoc

open Outline ScannedLine Splice

namespace Document

/-- A place where a block can be read back: directly behind a header that leaves no string open,
instead of lines that can be dropped and leave none open either. No line between the delimiters of
the block ends its string. -/
structure CleanSite (conventions : Conventions) (text : SourceText) (e : Element) : Prop where
  direct : (skipped text (e.startLine.toNat - 1)).all isDisposable = true
  header : ∀ line ∈ text.line? (e.startLine.toNat - 1), TripleQuote.after none line = none
  passed : (scanFrom none (skipped text (e.startLine.toNat - 1))).2 = none
  quiet : ∀ line ∈ Docstring.plainText conventions e,
    '\n' ∉ line.toList ∧ TripleQuote.double.isOdd line = false

instance (conventions : Conventions) (text : SourceText) (e : Element) :
    Decidable (CleanSite conventions text e) :=
  decidable_of_iff (_ ∧ _ ∧ _ ∧ _)
    ⟨fun ⟨direct, header, passed, quiet⟩ => ⟨direct, header, passed, quiet⟩,
      fun ⟨direct, header, passed, quiet⟩ => ⟨direct, header, passed, quiet⟩⟩

/-- A source whose blocks all stand where they can be read back, and in which folding tabs makes no
line a header. -/
structure Tidy (conventions : Conventions) (width : Nat) (source : String) : Prop where
  short : (SourceText.ofText source).size < UInt32.size
  wide : 0 < width
  untabbed : ∀ line ∈ (SourceText.ofText source).lines,
    (ofLine none (SourceText.foldLine width line)).keyword?.isSome = true →
      '\t' ∉ Text.trimChars line.toList
  sites : ∀ e ∈ (Outline.read source).pending conventions,
    CleanSite conventions (SourceText.ofText source) e

instance (conventions : Conventions) (width : Nat) (source : String) :
    Decidable (Tidy conventions width source) :=
  decidable_of_iff (_ ∧ _ ∧ _ ∧ _)
    ⟨fun ⟨short, wide, untabbed, sites⟩ => ⟨short, wide, untabbed, sites⟩,
      fun ⟨short, wide, untabbed, sites⟩ => ⟨short, wide, untabbed, sites⟩⟩

/-- The state of the revision of a tidy source between two splices: under folded tabs every header
is documented, save those of the elements to come. -/
structure Mending (width : Nat) (original now : SourceText) (coming : List Element) : Prop where
  untouched : SourceText.Untouched original now coming
  fulfilled : FulfilledBut (fun i => ∃ e ∈ coming, e.startLine.toNat = i + 1)
    (scanFrom none (now.lines.map (SourceText.foldLine width))).1
  someLine : now.lines ≠ []
  noNewline : ∀ line ∈ now.lines, '\n' ∉ line.toList

section

variable {conventions : Conventions} {width : Nat} {source : String}

/-- Before the first splice: a header without documentation is that of an element to come. -/
theorem Mending.start (valid : (Outline.read source).valid = true)
    (tidy : Tidy conventions width source) {extraction : Extraction}
    (extracted : (Outline.read source).extract = .ok extraction) :
    Mending width (SourceText.ofText source) (SourceText.ofText source)
      ((Outline.read source).pending conventions) where
  untouched := Or.inl rfl
  fulfilled := by
    intro i l rest found header named
    obtain ⟨folded, foldedMore, split, rfl, rfl⟩ := scanFrom_at found
    rw [← List.map_drop] at split
    rw [← List.map_take, scanFrom_fold_state tidy.wide] at header named ⊢
    cases lines : (SourceText.ofText source).lines.drop i with
    | nil => simp [lines] at split
    | cons line more =>
      rw [lines, List.map_cons] at split
      cases split
      generalize state : (scanFrom none ((SourceText.ofText source).lines.take i)).2 = opened
        at header named ⊢
      have inText : line ∈ (SourceText.ofText source).lines :=
        List.mem_of_mem_drop (lines ▸ List.mem_cons_self)
      -- The header was one before its tabs were folded.
      have keyword : (ofLine none (SourceText.foldLine width line)).keyword?.isSome = true := by
        simp only [isHeader, Bool.and_eq_true] at header
        exact header.2
      have same : (ofLine opened (SourceText.foldLine width line)).trimmed =
          (ofLine opened line).trimmed := trimmed_fold_untabbed (tidy.untabbed line inText keyword)
      obtain ⟨headers, names⟩ := isHeader_congr same (isCode_fold width opened line)
      have atI : (scan (SourceText.ofText source)).1.drop i =
          ofLine opened line :: (scanFrom (TripleQuote.after opened line) more).1 := by
        rw [scan, scanFrom_drop, state, lines]
        rfl
      rw [headers] at header
      rw [names] at named
      rw [TripleQuote.after_fold tidy.wide]
      cases documented : documentedIn (ofLine opened line).indent
          (scanFrom (TripleQuote.after opened line) more).1 with
      | true =>
        refine Or.inl fun deeper => ?_
        exact documentedIn_fold tidy.wide _ more deeper documented
      | false =>
        rw [← definition_isDocumented _ i] at documented
        obtain ⟨e, due, gives⟩ := pending_of_header conventions valid tidy.short extracted atI
          header named documented
        exact Or.inr ⟨e, due, (signatureOf_header valid tidy.short atI header gives).1⟩
  someLine := SourceText.lines_ofText_ne_nil source
  noNewline := SourceText.ofText_noNewline source

/-- A site scanned in parts: a header that leaves no string open, lines that leave none open, and
what comes behind them. -/
theorem scanFrom_site (positive : 0 < width) {before between behind : List String} {line : String}
    (outside : (scanFrom none before).2 = none) (closed : TripleQuote.after none line = none)
    (passed : (scanFrom none (between.map (SourceText.foldLine width))).2 = none) :
    (scanFrom none ((before ++ line :: (between ++ behind)).map (SourceText.foldLine width))).1 =
      (scanFrom none (before.map (SourceText.foldLine width))).1 ++
        ofLine none (SourceText.foldLine width line) ::
          ((scanFrom none (between.map (SourceText.foldLine width))).1 ++
            (scanFrom none (behind.map (SourceText.foldLine width))).1) := by
  rw [List.map_append, List.map_cons, List.map_append, scanFrom_append,
    scanFrom_fold_state positive, outside, scanFrom, TripleQuote.after_fold positive, closed,
    scanFrom_append, passed]

/-- A block that takes the place of dropped lines stands directly behind the signature, and what
comes behind it is as it was. -/
theorem untouched_site {original now : SourceText} {e : Element} {coming : List Element} {h : Nat}
    (untouched : SourceText.Untouched original now (e :: coming))
    (start : e.startLine.toNat = h + 1) (signature : original.signatureOf e = some h)
    (direct : (skipped original h).all isDisposable = true) :
    ∃ line behind, original.lines[h]? = some line ∧
      now.lines = original.lines.take h ++ line :: (skipped original h ++ behind) ∧
      ∀ block, (now.spliceInto e block).2.lines =
        original.lines.take h ++ line :: ((block ++ [""]) ++ behind) := by
  obtain ⟨found, agree⟩ := untouched.signature
  rw [signature] at found
  have inside := colonAt_lt (findSignature_eq_some_iff.mp signature).2.2.1
  have front : now.lines.take (h + 1) = original.lines.take h ++ [original.lines[h]] := by
    rw [agree h signature, List.take_add_one, List.getElem?_eq_getElem inside]
    rfl
  have passed : skipped now h = skipped original h := by
    rcases untouched with rfl | ⟨bound, colon, same, starts⟩
    · rfl
    · have above := starts e List.mem_cons_self
      exact skipped_congr same colon (by omega) direct
  have placed : place now h = h + 1 := by
    unfold place
    rw [passed, if_pos direct]
  refine ⟨original.lines[h], now.lines.drop (skippedEnd now h),
    List.getElem?_eq_getElem inside, ?_, ?_⟩
  · have parts := List.take_append_drop (h + 1) now.lines
    rw [front, drop_signature, passed] at parts
    simpa using parts.symm
  · intro block
    unfold SourceText.spliceInto
    rw [SourceText.splice_of_some found, placed, front]
    simp

/-- The block of a clean site and the empty line behind it, with tabs folded: outside strings at
both ends, without a header, and documentation for the header above. -/
theorem scanFrom_plainBlock (positive : 0 < width) {original : SourceText} {e : Element}
    (site : CleanSite conventions original e) :
    let lines := (Docstring.plainBlock conventions e ++ [""]).map (SourceText.foldLine width)
    (scanFrom none lines).2 = none ∧ (∀ l ∈ (scanFrom none lines).1, l.isHeader = false) ∧
      ∀ (x : ScannedLine) (behind : List String),
        Fulfilled x ((scanFrom none lines).1 ++ (scanFrom none behind).1) := by
  intro lines
  have block := Docstring.isBlock_plain positive fun line member => (site.quiet line member).2
  have folded : lines =
      SourceText.foldLine width (Docstring.indented e.bodyDepth Docstring.delimiter) ::
        (SourceText.foldLine width (Docstring.indented e.bodyDepth
            (Docstring.plainOpening conventions e)) ::
          (Docstring.plainSections conventions e).map (SourceText.foldLine width)) ++
        [SourceText.foldLine width (Docstring.indented e.bodyDepth Docstring.delimiter), ""] := by
    simp only [lines, Docstring.plainBlock, Docstring.plainText, List.map_append, List.map_cons,
      List.map_nil, List.cons_append, List.append_assoc, List.nil_append]
    rfl
  obtain ⟨ended, plain⟩ := scanFrom_block block
  rw [← folded] at ended plain
  refine ⟨ended, plain, ?_⟩
  intro x behind
  have joined := congrArg Prod.fst (scanFrom_append none lines behind)
  rw [ended] at joined
  dsimp only at joined
  rw [← joined, folded, List.append_assoc]
  exact fulfilled_block block x _

/-- One splice at a clean site keeps the invariant: the header above the block is fulfilled by it,
and no other header notices. -/
theorem Mending.step (positive : 0 < width) {original now : SourceText} {e : Element}
    {coming : List Element} {h : Nat} {l : ScannedLine} {rest : List ScannedLine}
    (atHeader : (scan original).1.drop h = l :: rest) (header : l.isHeader = true)
    (start : e.startLine.toNat = h + 1) (signature : original.signatureOf e = some h)
    (site : CleanSite conventions original e)
    (state : Mending width original now (e :: coming))
    (descending : ∀ later ∈ coming, Element.Below e later) :
    Mending width original (now.spliceInto e (Docstring.plainBlock conventions e)).2 coming := by
  have index : e.startLine.toNat - 1 = h := by omega
  have direct := site.direct
  have passed := site.passed
  have closed := site.header
  rw [index] at direct passed closed
  obtain ⟨line, behind, lineAt, old, spliced⟩ :=
    untouched_site state.untouched start signature direct
  have new := spliced (Docstring.plainBlock conventions e)
  have closed := closed line lineAt
  -- The header is code, so the lines above it leave no string open.
  obtain ⟨same, more, atLine, rfl, _⟩ := scanFrom_at atHeader
  obtain rfl : same = line := by
    have headAt := congrArg List.head? atLine
    rw [List.head?_drop, lineAt] at headAt
    simpa using headAt.symm
  have outside : (scanFrom none (original.lines.take h)).2 = none := by
    have code := isCode_of_isHeader header
    simp only [isCode, ofLine, Bool.and_eq_true, Bool.not_eq_true'] at code
    simpa using code.2
  rw [outside] at header
  obtain ⟨ended, plain, mended⟩ := scanFrom_plainBlock positive site
  refine ⟨state.untouched.step descending _, ?_, ?_, ?_⟩
  · have before := state.fulfilled
    rw [old, scanFrom_site positive outside closed
      (by rw [scanFrom_fold_state positive]; exact passed)] at before
    rw [new, scanFrom_site positive outside closed ended]
    have above : (scanFrom none ((original.lines.take h).map
        (SourceText.foldLine width))).1.length = h := by
      have inside := (List.getElem?_eq_some_iff.mp lineAt).1
      rw [scanFrom_length, List.length_map, List.length_take,
        Nat.min_eq_left (Nat.le_of_lt inside)]
    refine before.splice (isHeader_fold header) (mended _ _) plain ?_ ?_
    · rintro i isAbove ⟨due, member, startsAt⟩
      rcases List.mem_cons.mp member with rfl | later
      · omega
      · exact ⟨due, later, startsAt⟩
    · rintro i isBelow ⟨due, member, startsAt⟩
      rcases List.mem_cons.mp member with rfl | later
      · omega
      · have order := descending due later
        unfold Element.Below at order
        omega
  · rw [new]
    simp
  · intro x member
    rw [new] at member
    have kept : x ∈ now.lines ∨ x ∈ Docstring.plainBlock conventions e ∨ x = "" := by
      rw [old]
      simp only [List.mem_append, List.mem_cons, List.not_mem_nil, or_false] at member ⊢
      tauto
    rcases kept with fromNow | fromBlock | rfl
    · exact state.noNewline x fromNow
    · exact Docstring.plainBlock_noNewline (fun line inText => (site.quiet line inText).1) x fromBlock
    · exact List.not_mem_nil

/-- The invariant after a revision of clean sites: every header is fulfilled. -/
theorem Mending.run (positive : 0 < width) {original : SourceText} (coming : List Element)
    (sites : ∀ e ∈ coming, CleanSite conventions original e ∧ ∃ h l rest,
      (scan original).1.drop h = l :: rest ∧ l.isHeader = true ∧ e.startLine.toNat = h + 1 ∧
        original.signatureOf e = some h)
    (descending : coming.Pairwise Element.Below) (now : SourceText)
    (state : Mending width original now coming) :
    Mending width original
      (now.spliceAll (coming.map fun e => (e, Docstring.plainBlock conventions e))).text [] := by
  induction coming generalizing now with
  | nil => exact state
  | cons e rest ih =>
    obtain ⟨first, others⟩ := List.pairwise_cons.mp descending
    obtain ⟨site, h, l, behind, atHeader, header, start, signature⟩ := sites e List.mem_cons_self
    rw [List.map_cons, SourceText.spliceAll_cons]
    refine ih (fun x member => sites x (List.mem_cons_of_mem _ member)) others _ ?_
    exact state.step positive atHeader header start signature site first

/-- Work with the reader by indentation and without a toolkit. -/
def plainJob {σ : Type} (conventions : Conventions) (width : Nat) (source : String)
    (progress : Progress σ) : Job σ :=
  ⟨Parser.indentation, conventions, none, width, source, progress⟩

variable {σ : Type} {progress : Progress σ} {outline : Outline} {extraction : Extraction}

/-- A revision of a tidy source that is valid leaves no definition with a name undocumented. -/
theorem Tidy.fullyDocumented (tidy : Tidy conventions width source)
    (revised : (plainJob conventions width source progress).Revised outline extraction)
    (valid : (Outline.read ((plainJob conventions width source progress).updated
      extraction)).valid = true) :
    (Outline.read ((plainJob conventions width source progress).updated
      extraction)).FullyDocumented := by
  obtain rfl : Outline.read source = outline := Except.ok.inj (Except.ok.inj revised.reply)
  have extracted := revised.extracted
  have sites : ∀ e ∈ (Outline.read source).pending conventions,
      CleanSite conventions (SourceText.ofText source) e ∧ ∃ h l rest,
        (scan (SourceText.ofText source)).1.drop h = l :: rest ∧ l.isHeader = true ∧
          e.startLine.toNat = h + 1 ∧ (SourceText.ofText source).signatureOf e = some h :=
    fun e due => ⟨tidy.sites e due,
      header_of_pending conventions revised.valid tidy.short extracted due⟩
  have mended := Mending.run tidy.wide _ sites
    (by rw [pending_eq extracted]; exact Elements.toDocument_descending _) _
    (Mending.start revised.valid tidy extracted)
  have run : (plainJob conventions width source progress).revision extraction = _ :=
    SourceText.revise_plain conventions (SourceText.ofText source)
      (extraction.elements.resolve conventions).toDocument progress.toolkit
  rw [pending_eq extracted, ← run] at mended
  have lines : SourceText.ofText ((plainJob conventions width source progress).updated
      extraction) = ((plainJob conventions width source progress).revision
        extraction).text.foldTabs width := by
    refine SourceText.ofText_toText ?_ ?_
    · simpa [SourceText.foldTabs] using mended.someLine
    · intro line member
      obtain ⟨x, inText, rfl⟩ := List.mem_map.mp member
      exact SourceText.foldLine_noNewline (mended.noNewline x inText)
  intro d member named
  obtain ⟨i, l, rest, found, header, rfl⟩ := (mem_definitions_read valid).mp member
  have nested := (read_valid valid).2.1
  rw [← List.take_append_drop i (scan _).1, found] at nested
  have deeper : NextDeeper l.indent rest := fun next follows =>
    wellNested_deeper nested (isCode_of_isHeader header) (wellNested_header nested header) follows
  rw [definition_isDocumented]
  rw [lines] at found
  rcases mended.fulfilled i l rest found header named with fulfilled | ⟨e, none, _⟩
  · exact fulfilled deeper
  · exact absurd none List.not_mem_nil

/-- A text that was written holds the headers below which blocks were put, so it is not blank. -/
theorem updated_written {job : Job σ}
    (revised : job.Revised outline extraction) :
    (SourceText.ofText (job.updated extraction)).isBlank = false := by
  have some := revised.inserted
  rw [Job.revision_inserted, List.countP_pos_iff] at some
  obtain ⟨e, _, signature⟩ := some
  obtain ⟨line, member, colon⟩ := List.any_eq_true.mp signature
  have inSource : line ∈ (SourceText.ofText job.source).lines :=
    List.mem_of_mem_take (List.mem_of_mem_drop member)
  have stays : line ∈ kept (SourceText.ofText job.source).lines := by
    simp [kept, inSource, not_isDisposable_of_endsWithColon colon]
  obtain ⟨jobs, _, run⟩ := SourceText.revise_eq_spliceAll job.conventions job.toolkit
    (SourceText.ofText job.source) (extraction.elements.resolve job.conventions).toDocument
    job.progress.toolkit
  have inText : line ∈ (job.revision extraction).text.lines := by
    unfold Job.revision
    rw [run]
    exact (SourceText.spliceAll_keeps _ jobs).1.subset stays
  unfold Job.updated
  rw [SourceText.isBlank_toText_fold]
  unfold SourceText.isBlank
  by_contra blank
  rw [Bool.not_eq_false] at blank
  have white := List.all_eq_true.mp blank line inText
  have empty : Text.trimChars line.toList = [] := Text.trimChars_eq_nil.mpr white
  simp [endsWithColon, Text.trim, empty] at colon

end

end Document

namespace Node

open Document

/-- Documenting a file again. With the reader by indentation and no toolkit, let a file have been
documented. The second run finds nothing to document and leaves the tree alone just if the text that
the first run wrote is settled; as long as its line numbers fit 32 bits, that is if each of its
definitions with a name has documentation; and for a tidy source that is so. -/
theorem documentFile_twice_iff_settled {σ : Type} {top tree : Node} {conventions : Conventions}
    {width : Nat} {path : String} {progress after : Progress σ} {inserted : Nat}
    (documented : top.documentFile Parser.indentation conventions none width path progress =
      (.ok (.documented inserted), tree, after)) :
    ∃ source written, top.readText path = .ok source ∧ tree.readText path = .ok written ∧
      (∀ again : Progress σ,
        let second := tree.documentFile Parser.indentation conventions none width path again
        (second.1 = .ok (.failed .nothingToDocument) ∧ second.2.1 = tree) ↔
          Settled conventions written) ∧
      ((SourceText.ofText written).size < UInt32.size →
        (Settled conventions written ↔ (Outline.read written).FullyDocumented) ∧
        (Tidy conventions width source → (Outline.read written).FullyDocumented)) := by
  obtain ⟨source, place, outline, extraction, checked, read, located, held, revised, reply, valid,
    count, put⟩ := documentFile_documented documented
  obtain rfl : Outline.read _ = checked := Except.ok.inj (Except.ok.inj reply)
  have readAgain : tree.readText path =
      .ok ((plainJob conventions width source progress).updated extraction) := by
    rw [put]
    exact readText_after_write located held _
  refine ⟨source, _, read, readAgain, ?_, ?_⟩
  · intro again second
    have status : second.1 = statusOf (plainJob conventions width
        ((plainJob conventions width source progress).updated extraction) again).run.1 :=
      documentFile_status readAgain
    have nothing : second.1 = .ok (.failed .nothingToDocument) ↔ Settled conventions
        ((plainJob conventions width source progress).updated extraction) := by
      rw [status, statusOf_eq_failed, ← Job.course_iff]
      exact Job.nothingToDocument_iff valid (updated_written revised)
    rw [← nothing]
    refine ⟨And.left, fun failed => ⟨failed, documentFile_unchanged ?_⟩⟩
    intro n documented
    rw [show (tree.documentFile Parser.indentation conventions none width path again).1 =
      second.1 from rfl, failed] at documented
    cases documented
  · intro short
    exact ⟨settled_iff_fullyDocumented conventions valid short,
      fun tidy => tidy.fullyDocumented revised valid⟩

set_option maxRecDepth 100000 in
/-- A tidy module, indented by tabs, with an empty documentation string: the block takes its place,
and the second run finds nothing to document. -/
theorem documentFile_twice_iff_settled_tidy :
    let source := "def f(x):\n\t\"\"\"\n\t\"\"\"\n\treturn x\n"
    let once := String.intercalate "\n" ["def f(x):", "    \"\"\"",
      "    This method is XXX . It is a global method.", "", "    :param x: XXX", "    \"\"\"", "",
      "    return x", ""]
    let top : Node := .dir [("mod.py", .file source.toUTF8)]
    Tidy {} 4 source ∧ ∃ tree after,
      top.documentFile Parser.indentation {} (none : Option (Toolkit Unit)) 4 "mod.py" ⟨0, ()⟩ =
        (.ok (.documented 1), tree, after) ∧
      tree.readText "mod.py" = .ok once ∧
      let second := tree.documentFile Parser.indentation {} (none : Option (Toolkit Unit)) 4
        "mod.py" ⟨0, ()⟩
      second.1 = .ok (.failed .nothingToDocument) ∧ second.2.1 = tree := by
  intro source once top
  have tidy : Tidy {} 4 source := by decide +kernel
  have located : top.locate true "mod.py" = .ok ["mod.py"] := rfl
  have read : top.readText "mod.py" = .ok source := readText_of_locate located rfl
  have run : (plainJob {} 4 source (⟨0, ()⟩ : Progress Unit)).run.1 = .ok ⟨once, 1⟩ := by
    decide +kernel
  obtain ⟨tree, after, documented, written⟩ := documentFile_of_run read run
  obtain ⟨_, _, again, held, exact, settled⟩ := documentFile_twice_iff_settled documented
  cases read.symm.trans again
  cases written.symm.trans held
  obtain ⟨whole, tidied⟩ := settled (by decide +kernel)
  exact ⟨tidy, tree, after, documented, written,
    (exact ⟨0, ()⟩).mpr (whole.mpr (tidied tidy))⟩

set_option maxRecDepth 100000 in
/-- An empty string and another one below a header: the block goes behind both, so the second run
documents the function again. -/
theorem documentFile_twice_behind_string :
    let header := ["def f():", "    \"\"\"", "    \"\"\"", "    \"\"\"", "    text", "    \"\"\""]
    let block := ["    \"\"\"", "    This method is XXX . It is a global method.", "    \"\"\"", ""]
    let source := String.intercalate "\n" (header ++ ["    x = 1", ""])
    let once := String.intercalate "\n" (header ++ block ++ ["    x = 1", ""])
    let twice := String.intercalate "\n" (header ++ block ++ block ++ ["    x = 1", ""])
    let top : Node := .dir [("mod.py", .file source.toUTF8)]
    ∃ tree after last ended,
      top.documentFile Parser.indentation {} (none : Option (Toolkit Unit)) 4 "mod.py" ⟨0, ()⟩ =
        (.ok (.documented 1), tree, after) ∧ tree.readText "mod.py" = .ok once ∧
      tree.documentFile Parser.indentation {} (none : Option (Toolkit Unit)) 4 "mod.py" ⟨0, ()⟩ =
        (.ok (.documented 1), last, ended) ∧ last.readText "mod.py" = .ok twice := by
  intro header block source once twice top
  have located : top.locate true "mod.py" = .ok ["mod.py"] := rfl
  have read : top.readText "mod.py" = .ok source := readText_of_locate located rfl
  have first : (plainJob {} 4 source (⟨0, ()⟩ : Progress Unit)).run.1 = .ok ⟨once, 1⟩ := by
    decide +kernel
  have second : (plainJob {} 4 once (⟨0, ()⟩ : Progress Unit)).run.1 = .ok ⟨twice, 1⟩ := by
    decide +kernel
  obtain ⟨tree, after, documented, written⟩ := documentFile_of_run read first
  obtain ⟨last, ended, again, rewritten⟩ := documentFile_of_run written second
  exact ⟨tree, after, last, ended, documented, written, again, rewritten⟩

end Node

end AutoDoc
