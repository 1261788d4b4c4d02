import AutoDoc.Proofs.Docstring.Inline
import Mathlib.Algebra.Ring.Nat

/-!
# Blocks that are one string

A block starts and ends with its delimiter. If no text of the element holds the delimiter, it stands
nowhere else in the block, just if no default that is put in quotes makes one with them
(`block_is_one_string_iff`). Such a default need not hold the delimiter itself: a single quote
between two others is enough (`block_with_quoted_quote`).
-/

namespace AutoDoc.Docstring

theorem count_eq_zero_iff (s : String) : Text.count delimiter s = 0 ↔ Undelimited s := by
  change Text.count TripleQuote.double.text s = 0 ↔ _
  rw [TripleQuote.count_eq, TripleQuote.countFrom_eq_zero_iff, Undelimited, Text.occursIn,
    Option.isSome_eq_false_iff, Option.isNone_iff_eq_none]
  rfl

/-- The line of a delimiter holds it once. -/
theorem count_indented_delimiter (depth : Nat) :
    Text.count delimiter (indented depth delimiter) = 1 := by
  apply TripleQuote.Alone.count (q := .double)
  refine ⟨List.replicate depth '\t', [], ?_, ?_, rfl⟩
  · rw [toList_indented (by decide), List.append_nil]
    rfl
  · rw [List.all_eq_true]
    intro c member
    rw [List.eq_of_mem_replicate member]
    decide

section

variable {conventions : Conventions} {e : Element}

/-- A line of a section stands in the block, indented. -/
theorem mem_plainText {part : List String} {line : String}
    (inSections : part ∈ sections conventions e) (inPart : line ∈ part) :
    indented e.bodyDepth line ∈ plainText conventions e := by
  refine List.mem_cons_of_mem _ (List.mem_map_of_mem (List.mem_flatMap.mpr ⟨part, inSections, ?_⟩))
  rw [if_neg]
  · exact List.mem_cons_of_mem _ inPart
  · rw [List.isEmpty_iff]
    exact List.ne_nil_of_mem inPart

/-- The lines of a listed parameter stand in a section. -/
theorem mem_sections_of_listed {p : Parameter} {line : String}
    (listed : p ∈ listedParameters conventions e) (inLines : line ∈ parameterLines p) :
    ∃ part ∈ sections conventions e, line ∈ part := by
  unfold listedParameters at listed
  unfold sections
  split at listed
  next isClass =>
    split at listed
    next => cases listed
    next c built =>
      split at listed
      next => cases listed
      next undocumented =>
        refine ⟨parameterSection conventions c, ?_, List.mem_flatMap.mpr ⟨p, listed, inLines⟩⟩
        simp [isClass, classSections, constructorSection, built, undocumented]
  next isFunction =>
    rw [if_neg isFunction]
    refine ⟨_, List.mem_singleton_self _, ?_⟩
    rw [List.append_assoc]
    exact List.mem_append_left _ (List.mem_flatMap.mpr ⟨p, listed, inLines⟩)

/-- The first line of a parameter shows its default in quotes. -/
theorem parameterLines_shows {p : Parameter} {d : String} (inQuotes : quotesDefault p = true)
    (given : d ∈ p.default) :
    ∃ line ∈ parameterLines p, ("\"" ++ d ++ "\"").toList <:+: line.toList := by
  refine ⟨_, List.mem_cons_self, ?_⟩
  rw [Option.mem_def] at given
  unfold quotesDefault at inQuotes
  simp only [given, inQuotes, if_true]
  exact ⟨(":param " ++ p.name ++ ": " ++ placeholder ++ ". (Default=").toList, [')'], by simp⟩

theorem Undelimited.of_indented {depth : Nat} {line : String}
    (undelimited : Undelimited (indented depth line)) : Undelimited line := by
  refine undelimited.stretch ?_
  unfold indented
  split
  next => exact List.infix_rfl
  next =>
    rw [String.toList_append]
    exact (List.suffix_append _ _).isInfix

/-- A block has no delimiter within just if no listed default makes one with its quotes. -/
theorem plainText_undelimited_iff (texts : e.Texts Undelimited)
    (constructor : ∀ c ∈ e.constructor,
      Undelimited c.documentation ∧ ∀ p ∈ c.parameters, p.Texts Undelimited) :
    (∀ line ∈ plainText conventions e, Undelimited line) ↔
      ∀ p ∈ listedParameters conventions e, PlainDefault p := by
  constructor
  · intro undelimited p listed inQuotes d given
    obtain ⟨line, inLines, shown⟩ := parameterLines_shows inQuotes given
    obtain ⟨part, inSections, inPart⟩ := mem_sections_of_listed listed inLines
    exact (undelimited _ (mem_plainText inSections inPart)).of_indented.stretch shown
  · intro plain
    refine undelimited_joinable.plainText texts (fun p listed => ⟨?_, plain p listed⟩) ?_
    · rcases mem_listedParameters listed with member | ⟨c, built, member⟩
      · exact texts.parameters p member
      · exact (constructor c built).2 p member
    · intro c built _ line member
      exact (constructor c built).1.stretch ((Text.trim_within _).trans
        ((SourceText.line_within member).trans (Text.trim_within _)))

end

/-- A text without delimiter makes one in quotes just if it is a quote or has two at one end. -/
theorem quoted_undelimited_iff {d : String} (undelimited : Undelimited d) :
    Undelimited ("\"" ++ d ++ "\"") ↔
      d ≠ "\"" ∧ ¬ ['"', '"'] <+: d.toList ∧ ¬ ['"', '"'] <:+ d.toList := by
  have chars : ("\"" ++ d ++ "\"").toList = '"' :: (d.toList ++ ['"']) := by simp
  have single : d = "\"" ↔ d.toList = ['"'] := by rw [← String.toList_inj]; rfl
  rw [undelimited_iff] at undelimited ⊢
  rw [chars, List.infix_cons_iff, List.cons_prefix_cons, List.infix_concat_iff, ne_eq, single,
    ← not_or, ← not_or, not_iff_not]
  generalize d.toList = cs at undelimited
  have front : ['"', '"'] <+: cs ++ ['"'] ↔ cs = ['"'] ∨ ['"', '"'] <+: cs := by
    match cs with
    | [] => decide
    | [x] => simp [List.cons_prefix_cons, eq_comm]
    | x :: y :: rest => simp [List.cons_prefix_cons]
  have back : ['"', '"', '"'] <:+ cs ++ ['"'] ↔ ['"', '"'] <:+ cs := by
    rw [List.suffix_concat_iff, or_iff_right (List.cons_ne_nil _ _)]
    constructor
    · rintro ⟨two, same, trailing⟩
      have quotes : ['"', '"'] = two := (List.append_left_inj ['"']).mp same
      rwa [quotes]
    · exact fun trailing => ⟨['"', '"'], rfl, trailing⟩
  rw [front, back, or_iff_left undelimited]
  simp [or_assoc]

/-- A block without a toolkit is one string. Its delimiter stands on the first and on the last
line; where no text of the element, or of the constructor of a class, holds it, it stands nowhere
else just if the block lists no default in quotes that is a quote, or starts or ends with two. -/
theorem block_is_one_string_iff {σ : Type} (conventions : Conventions) (e : Element) (state : σ)
    (texts : e.Texts Undelimited)
    (constructor : ∀ c ∈ e.constructor,
      Undelimited c.documentation ∧ ∀ p ∈ c.parameters, p.Texts Undelimited) :
    let lines := ((block conventions (none : Option (Toolkit σ)) e).run state).1
    let harmless := ∀ p ∈ listedParameters conventions e, quotesDefault p = true →
      ∀ d ∈ p.default, d ≠ "\"" ∧ ¬ ['"', '"'] <+: d.toList ∧ ¬ ['"', '"'] <:+ d.toList
    ∃ interior,
      lines = indented e.bodyDepth delimiter :: interior ++ [indented e.bodyDepth delimiter] ∧
      ((∀ line ∈ interior, Text.occursIn delimiter line = false) ↔ harmless) ∧
      ((lines.map (Text.count delimiter)).sum = 2 ↔ harmless) := by
  intro lines harmless
  have shape : lines = indented e.bodyDepth delimiter :: plainText conventions e ++
      [indented e.bodyDepth delimiter] := by
    simp only [lines, block_none]
    rfl
  have plain : harmless ↔ ∀ p ∈ listedParameters conventions e, PlainDefault p := by
    refine forall₂_congr fun p listed => forall_congr' fun _ => forall₂_congr fun d given => ?_
    refine (quoted_undelimited_iff ?_).symm
    rcases mem_listedParameters listed with member | ⟨c, built, member⟩
    · exact (texts.parameters p member).default d given
    · exact ((constructor c built).2 p member).default d given
  have within : (∀ line ∈ plainText conventions e, Undelimited line) ↔
      ∀ p ∈ listedParameters conventions e, PlainDefault p :=
    plainText_undelimited_iff texts constructor
  refine ⟨plainText conventions e, shape, within.trans plain.symm, ?_⟩
  rw [plain, ← within, shape]
  have none : (∀ line ∈ plainText conventions e, Undelimited line) ↔
      ((plainText conventions e).map (Text.count delimiter)).sum = 0 := by
    simp only [List.sum_eq_zero_iff_forall_eq_nat, List.forall_mem_map, count_eq_zero_iff]
  rw [none, List.cons_append, List.map_cons, List.map_append, List.sum_cons, List.sum_append,
    count_indented_delimiter, List.map_singleton, List.sum_singleton, count_indented_delimiter]
  omega

/-- A class with a constructor whose default starts with a quote, and with no more than one. -/
theorem block_is_one_string_iff_constructor :
    let init : Element := {
      name := "__init__", kind := .method, startLine := 2, endLine := 3, owner := "Ball",
      parameters := [{ name := "self" },
        { name := "mark", typeHint := some " str", default := some "\"a\"" }],
      totalLines := 2, linesOfCode := 2 }
    let e : Element := {
      name := "Ball", kind := .classDef, startLine := 1, endLine := 3, inheritance := ["Toy"],
      methods := ["__init__"], constructor := some init, totalLines := 3, linesOfCode := 3 }
    e.Texts Undelimited ∧
      (∀ c ∈ e.constructor, Undelimited c.documentation ∧ ∀ p ∈ c.parameters, p.Texts Undelimited) ∧
      (((block {} (none : Option (Toolkit Unit)) e).run ()).1.map
        (Text.count delimiter)).sum = 2 := by
  intro init e
  have texts : e.Texts Undelimited := by decide
  have constructor : ∀ c ∈ e.constructor,
      Undelimited c.documentation ∧ ∀ p ∈ c.parameters, p.Texts Undelimited := by decide
  obtain ⟨_, _, _, twice⟩ := block_is_one_string_iff {} e () texts constructor
  exact ⟨texts, constructor, twice.mpr (by decide)⟩

/-- A default that is a quote makes a delimiter with the quotes around it. -/
theorem block_with_quoted_quote :
    let e : Element := {
      name := "f", kind := .function, startLine := 1, endLine := 2,
      parameters := [{ name := "x", typeHint := some "str", default := some "\"" }],
      totalLines := 2, linesOfCode := 2 }
    let lines := ((block {} (none : Option (Toolkit Unit)) e).run ()).1
    e.Texts Undelimited ∧ Undelimited e.documentation ∧ e.constructor = none ∧
      "\t:param x: XXX. (Default=\"\"\")" ∈ lines.tail.dropLast ∧
      (lines.map (Text.count delimiter)).sum = 3 := by
  decide

end AutoDoc.Docstring
