import AutoDoc.Proofs.Document.Regularity
import AutoDoc.Proofs.Outline.Forest
import AutoDoc.Proofs.Outline.Surroundings

/-!
# How deep a definition stands

The depth of a documentation block counts the definitions around its element, the columns of a
regularly indented header count all blocks around it. The two go together just if every block around
the header is that of a definition (`RegularSource.standsInDefinitions_iff`). So a regularly indented
source stays valid unless a class or a function to document stands in a conditional, a loop or any
other block (`RegularSource.valid_updated_iff_definitions`), which decides what becomes of its file
(`documentFile_regular`).
-/

namespace AutoDoc

open Outline ScannedLine

namespace ScannedLine

/-- Of the lines in front of `l`, `x` opens a block that `l` stands in: up to `l` all code behind it
is deeper. -/
def OpensAround (before : List ScannedLine) (l x : ScannedLine) : Prop :=
  x.opensBlock = true ∧ x.indent < l.indent ∧ x.isCode = true ∧
    ∃ outside inside, before = outside ++ x :: inside ∧
      ∀ y ∈ inside, y.isCode = true → x.indent < y.indent

section

variable {before rest lines : List ScannedLine} {l x : ScannedLine} {h : Header} {width : Nat}

theorem mem_around_iff (nested : wellNested (before ++ l :: rest) = true) (code : l.isCode = true) :
    x ∈ around (openLines before) l ↔ OpensAround before l x := by
  constructor
  · intro member
    obtain ⟨opened, less⟩ := mem_around.mp member
    exact ⟨opensBlock_of_mem_around nested code x member, less, mem_openLines.mp opened⟩
  · rintro ⟨_, less, opened⟩
    exact mem_around.mpr ⟨mem_openLines.mpr opened, less⟩

/-- A line of regularly indented code is indented once for each line around it. -/
theorem Regular.indent_eq (nested : wellNested (before ++ l :: rest) = true)
    (regular : Regular width (before ++ l :: rest)) (code : l.isCode = true) :
    l.indent = width * (around (openLines before) l).length := by
  have climbs : Climbs (fun outer inner => inner = outer + width)
      (l :: around (openLines before) l) := climbs_around nested regular code
  exact climbs.indent_eq

/-- A header of regularly indented code is indented once for each definition around it just if
every block around it is that of a definition. -/
theorem Regular.indent_eq_iff (positive : 1 ≤ width) (nested : wellNested lines = true)
    (regular : Regular width lines) (place : h.At lines) :
    h.line.indent = width * (h.enclosing lines).length ↔
      ∀ x, OpensAround (lines.take h.index) h.line x → x.isHeader = true := by
  have count := congrArg List.length (Header.enclosing_lines place)
  rw [List.length_map] at count
  rw [← List.take_append_drop h.index lines, place.found] at nested regular
  rw [regular.indent_eq nested place.isCode, count, Nat.mul_right_inj (by omega), eq_comm,
    List.length_filter_eq_length_iff]
  simp only [mem_around_iff nested place.isCode]

end

end ScannedLine

namespace Outline

theorem Class.of_record? {c : Class} {r : Record} (told : c.record? = some r) :
    c.startLine.map (·.toNat) = some r.first ∧ c.context = some r.context := by
  simp only [Class.record?, Option.bind_eq_bind, Option.bind_eq_some_iff] at told
  obtain ⟨name, _, first, starts, last, _, context, within, same⟩ := told
  cases same
  exact ⟨by rw [starts]; rfl, within⟩

theorem Function.of_record? {f : Function} {r : Record} (told : f.record? = some r) :
    f.startLine.map (·.toNat) = some r.first ∧ f.context = some r.context := by
  simp only [Function.record?, Option.bind_eq_bind, Option.bind_eq_some_iff] at told
  obtain ⟨name, _, first, starts, last, _, context, within, owner, _, same⟩ := told
  cases same
  exact ⟨by rw [starts]; rfl, within⟩

section

variable {o : Outline} {conventions : Conventions} {extraction : Extraction} {e : Element}

/-- An element has the line and the context of a record of the outline. -/
theorem record_of_considered (extracted : o.extract = .ok extraction)
    (kept : e ∈ considered conventions extraction) :
    ∃ told ∈ o.classes.map Class.record? ++ o.functions.map Function.record?,
      ∀ r ∈ told, e.startLine.toNat = r.first ∧ e.context = r.context := by
  have yields := yields_of_extract extracted
  rcases List.mem_append.mp kept with isClass | isFunction
  · obtain ⟨x, member, rfl⟩ := List.mem_map.mp isClass
    obtain ⟨c, usable, yield⟩ := Extraction.exists_left_of_mem yields.classes member
    refine ⟨_, List.mem_append_left _ (List.mem_map_of_mem (List.mem_filter.mp usable).1),
      fun r told => ?_⟩
    obtain ⟨first, context⟩ := Class.of_record? told
    rw [yield.startLine] at first
    have parts := congrArg Element.context yield.parts
    exact ⟨Option.some.inj first, by simpa [context] using parts⟩
  · obtain ⟨x, member, rfl⟩ := List.mem_map.mp isFunction
    obtain ⟨f, usable, yield⟩ := Extraction.exists_left_of_mem yields.functions member
    refine ⟨_, List.mem_append_right _ (List.mem_map_of_mem (List.mem_filter.mp usable).1),
      fun r told => ?_⟩
    obtain ⟨first, context⟩ := Function.of_record? told
    rw [yield.startLine] at first
    have parts := congrArg Element.context yield.parts
    exact ⟨Option.some.inj first, by simpa [context] using parts⟩

end

end Outline

namespace Document

section

variable {conventions : Conventions} {width : Nat} {source : String} {e : Element}

/-- An element to document has the line of a header, and its context names the definitions around
that header. -/
theorem place_of_pending (valid : (Outline.read source).valid = true)
    (short : (SourceText.ofText source).size < UInt32.size)
    (due : e ∈ (Outline.read source).pending conventions) :
    ∃ h : Header, h.At (scan (SourceText.ofText source)).1 ∧ e.startLine.toNat = h.index + 1 ∧
      e.context =
        contextOf ((h.enclosing (scan (SourceText.ofText source)).1).map Header.scope) := by
  have size : (scan (SourceText.ofText source)).1.length = (SourceText.ofText source).size :=
    scanFrom_length _ _
  have records : (Outline.read source).classes.map Class.record? ++
      (Outline.read source).functions.map Function.record? =
        (recordsOf (scan (SourceText.ofText source)).1 true ++
          recordsOf (scan (SourceText.ofText source)).1 false).map some := by
    obtain ⟨_, _, outline⟩ := read_valid valid
    rw [outline, classes_records, functions_records, entries_records (size ▸ short),
      entries_records (size ▸ short), List.map_append]
  obtain ⟨extraction, extracted⟩ := extract_ok (fitsRanges_read valid short)
  rw [pending_eq extracted] at due
  obtain ⟨told, listed, parts⟩ := record_of_considered extracted
    ((Element.firstPerLine_covers _).2 e (List.mem_filter.mp due).1)
  rw [records] at listed
  obtain ⟨r, member, rfl⟩ := List.mem_map.mp listed
  obtain ⟨h, place, rfl⟩ := (mem_recordsOf _ r).mp member
  obtain ⟨first, context⟩ := parts _ rfl
  exact ⟨h, place, first, context⟩

/-- Every block around the header of an element is one of a class or a function. -/
def AmongDefinitions (source : String) (e : Element) : Prop :=
  ∀ before l rest, (scan (SourceText.ofText source)).1 = before ++ l :: rest →
    e.startLine.toNat = before.length + 1 → ∀ x, OpensAround before l x → x.isHeader = true

/-- The depth of an element to document fits the columns of its header just if every block around
that header is one of a class or a function. -/
theorem RegularSource.standsInDefinitions_iff (regular : RegularSource conventions width source)
    (due : e ∈ (Outline.read source).pending conventions) :
    standsInDefinitions width (SourceText.ofText source) e = true ↔ AmongDefinitions source e := by
  obtain ⟨_, nested, _⟩ := read_valid regular.valid
  obtain ⟨extraction, extracted⟩ := extract_ok (fitsRanges_read regular.valid regular.short)
  obtain ⟨h, place, startH, context⟩ := place_of_pending regular.valid regular.short due
  obtain ⟨i, line, behind, _, startI, here, atHeader, _⟩ := regular.header extracted due
  have columns : h.line.indent = indentOf line := by
    obtain rfl : h.index = i := by omega
    rw [(List.cons.inj (place.found.symm.trans atHeader)).1]
    rfl
  have depth : e.context.length = (h.enclosing (scan (SourceText.ofText source)).1).length := by
    simp [context, contextOf]
  have stands : standsInDefinitions width (SourceText.ofText source) e = true ↔
      ∀ x, OpensAround ((scan (SourceText.ofText source)).1.take h.index) h.line x →
        x.isHeader = true := by
    rw [← regular.regular.indent_eq_iff regular.positive nested place, standsInDefinitions, startI,
      Nat.add_sub_cancel, here, depth, columns]
    exact beq_iff_eq
  have above : ((scan (SourceText.ofText source)).1.take h.index).length = h.index := by
    have within := place.last_lt
    unfold Header.last at within
    rw [List.length_take, Nat.min_eq_left (by omega)]
  rw [stands]
  constructor
  · intro definitions before l rest split start
    have atH : before.length = h.index := by omega
    have found := place.found
    rw [split, ← atH, List.drop_left] at found
    obtain ⟨rfl, rfl⟩ := List.cons.inj found
    rwa [split, ← atH, List.take_left] at definitions
  · intro definitions
    refine definitions _ _ h.rest ?_ (by rw [above, startH])
    rw [← place.found, List.take_append_drop]

/-- What the work on a regular source leads to is valid just if every block around a class or a
function to document is that of a class or a function. -/
theorem RegularSource.valid_updated_iff_definitions {σ : Type} {extraction : Extraction}
    (regular : RegularSource conventions width source) (progress : Progress σ)
    (extracted : (Outline.read source).extract = .ok extraction) :
    (Outline.read ((plainJob conventions width source progress).updated extraction)).valid = true ↔
      ∀ e ∈ (Outline.read source).pending conventions, AmongDefinitions source e := by
  rw [regular.valid_updated_iff progress extracted]
  exact forall₂_congr fun e due => regular.standsInDefinitions_iff due

end

end Document

namespace Node

open Document

/-- Documenting a regularly indented file, with the reader by indentation and no toolkit. Without
classes and functions there is nothing to document. Otherwise all of them are documented if nothing
but definitions stands around any of them, and if not, the documented source is not valid and the
file is left alone. What stands around a definition can be told from the columns of its header. -/
theorem documentFile_regular {σ : Type} (top : Node) (conventions : Conventions) (width : Nat)
    (path source : String) (progress : Progress σ) (read : top.readText path = .ok source)
    (regular : RegularSource conventions width source) :
    ∃ extraction, (Outline.read source).extract = .ok extraction ∧
      let kept := extraction.elements.resolve conventions
      let all := kept.classes ++ kept.functions
      (top.documentFile Parser.indentation conventions none width path progress).1 =
        .ok (if all.isEmpty then .failed .nothingToDocument
          else if all.all (standsInDefinitions width (SourceText.ofText source)) then
            .documented all.length
          else .failed .validationFailed) ∧
      ∀ e ∈ all, standsInDefinitions width (SourceText.ofText source) e = true ↔
        AmongDefinitions source e := by
  obtain ⟨extraction, extracted⟩ := extract_ok (fitsRanges_read regular.valid regular.short)
  refine ⟨extraction, extracted, ?_⟩
  intro kept all
  have perm : ((Outline.read source).pending conventions).Perm all := by
    rw [pending_eq extracted]
    exact toDocument_perm conventions extracted (startLines_nodup regular.valid regular.short)
      (undocumented_of_absent regular.valid regular.stringless)
  refine ⟨?_, fun e member => regular.standsInDefinitions_iff (perm.mem_iff.mpr member)⟩
  rw [documentFile_status read]
  cases elements : all with
  | nil =>
    rw [elements, List.perm_nil] at perm
    rw [if_pos (by rfl), statusOf_eq_failed, ← Job.course_iff]
    refine (Job.nothingToDocument_iff regular.valid regular.written).mpr
      ⟨⟨extraction, extracted⟩, ?_⟩
    rw [perm]
    exact fun _ absent => absurd absent List.not_mem_nil
  | cons e rest =>
    have due : e ∈ (Outline.read source).pending conventions :=
      perm.mem_iff.mpr (elements ▸ List.mem_cons_self)
    obtain ⟨revised, inserted⟩ := regular.revised progress extracted due
    obtain ⟨state, ran⟩ := Job.run_of_revised revised
    have ran : (Job.run ⟨Parser.indentation, conventions, none, width, source, progress⟩).1 = _ :=
      congrArg Prod.fst ran
    have agree : (Outline.read ((plainJob conventions width source progress).updated
        extraction)).valid = all.all (standsInDefinitions width (SourceText.ofText source)) := by
      rw [Bool.eq_iff_iff, regular.valid_updated_iff progress extracted, List.all_eq_true]
      exact forall_congr' fun x => imp_congr_left perm.mem_iff
    rw [ran, if_neg (by simp), ← elements, ← agree, ← perm.length_eq, ← inserted, Job.verdict]
    have again : (plainJob conventions width source progress).secondReply extraction =
        .ok (.ok (Outline.read ((plainJob conventions width source progress).updated
          extraction))) := rfl
    rw [again]
    dsimp only
    split <;> rfl

set_option maxRecDepth 100000 in
/-- A class with a method, and a block without definitions: both definitions are documented. -/
theorem documentFile_regular_method :
    let source := "class Cart:\n    def total(self):\n        return 0\nif x:\n    y = 1\n"
    let top : Node := .dir [("mod.py", .file source.toUTF8)]
    RegularSource {} 4 source ∧
      (top.documentFile Parser.indentation {} (none : Option (Toolkit Unit)) 4 "mod.py" ⟨0, ()⟩).1 =
        .ok (.documented 2) := by
  intro source top
  have regular : RegularSource {} 4 source := by decide +kernel
  have located : top.locate true "mod.py" = .ok ["mod.py"] := rfl
  have read : top.readText "mod.py" = .ok source := readText_of_locate located rfl
  obtain ⟨extraction, extracted, status, _⟩ :=
    documentFile_regular top {} 4 "mod.py" source (⟨0, ()⟩ : Progress Unit) read regular
  have both : ∀ x ∈ (Outline.read source).extract.toOption,
      let all := (x.elements.resolve {}).classes ++ (x.elements.resolve {}).functions
      all.length = 2 ∧
        all.all (standsInDefinitions 4 (SourceText.ofText source)) = true := by
    decide +kernel
  obtain ⟨two, stand⟩ := both extraction (by rw [extracted]; rfl)
  refine ⟨regular, status.trans ?_⟩
  rw [stand, two, if_neg, if_pos rfl]
  intro none
  rw [List.isEmpty_iff.mp none] at two
  cases two

set_option maxRecDepth 100000 in
/-- Without its condition on defaults: one double quote, put in double quotes, is a delimiter, and the
documented source is not valid although nothing stands around its function. -/
example :
    let source := "def f(x: str = \"):\n    return x\n"
    (Outline.read source).valid = true ∧ TripleQuote.Absent source ∧ '\t' ∉ source.toList ∧
      Regular 4 (scan (SourceText.ofText source)).1 ∧ ¬ RegularSource {} 4 source ∧
      ((Outline.read source).pending {}).all (standsInDefinitions 4 (SourceText.ofText source)) ∧
      (plainJob {} 4 source (⟨0, ()⟩ : Progress Unit)).run.1 =
        .error (.failed .validationFailed) := by
  decide +kernel

set_option maxRecDepth 100000 in
/-- A function within a conditional: its block would stand where the conditional's body stands, so
the documented source is not valid. -/
theorem documentFile_regular_conditional :
    let source := "if x:\n    def f():\n        return 1\n"
    let top : Node := .dir [("mod.py", .file source.toUTF8)]
    RegularSource {} 4 source ∧
      (top.documentFile Parser.indentation {} (none : Option (Toolkit Unit)) 4 "mod.py" ⟨0, ()⟩).1 =
        .ok (.failed .validationFailed) := by
  intro source top
  have located : top.locate true "mod.py" = .ok ["mod.py"] := rfl
  have read : top.readText "mod.py" = .ok source := readText_of_locate located rfl
  have run : (plainJob {} 4 source (⟨0, ()⟩ : Progress Unit)).run.1 =
      .error (.failed .validationFailed) := by
    decide +kernel
  refine ⟨by decide +kernel, ?_⟩
  rw [documentFile_status read, statusOf_eq_failed]
  exact run

end Node

end AutoDoc
