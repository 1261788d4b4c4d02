import AutoDoc.Proofs.Docstring.Influence
import AutoDoc.Proofs.Text.Trimmed
import AutoDoc.Splice
import Mathlib.Data.List.Chain

/-!
# The layout of a block

Between its delimiters a block holds lines of text, flush at the depth of the element's body, and
empty lines that set its sections apart (`block_layout`). Sections neither start nor end with an
empty line (`framed_sections`), and most hold none at all (`solid_sections`): empty lines stand in
the documentation of a constructor only, which is the one text of several lines that a block takes
over. The opening has text with any toolkit (`opening_head`), so no block is made of lines that a
splice would drop.
-/

namespace AutoDoc.Docstring

open Text Toolkit

/-- The line starts with a character that is not white space. -/
def Solid (line : String) : Prop := ∃ c ∈ line.toList.head?, isWhite c = false

-- By name: a search over all characters would decide it as well.
instance (line : String) : Decidable (Solid line) := Option.decidableExistsMem _

theorem Solid.append {a : String} (solid : Solid a) (b : String) : Solid (a ++ b) := by
  obtain ⟨c, head, dark⟩ := solid
  refine ⟨c, ?_, dark⟩
  rw [Option.mem_def] at head ⊢
  rw [String.toList_append, List.head?_append, head]
  rfl

theorem Solid.ne_empty {line : String} (solid : Solid line) : line ≠ "" := by
  rintro rfl
  obtain ⟨c, head, _⟩ := solid
  cases head

theorem solid_trim {s : String} (some : trim s ≠ "") : Solid (trim s) := by
  cases chars : (trim s).toList with
  | nil => exact absurd (String.toList_inj.mp chars) some
  | cons c rest =>
    refine ⟨c, by rw [chars]; rfl, ?_⟩
    rw [trim, String.toList_ofList] at chars
    exact isWhite_head_trimChars chars

/-- Lines that can stand between empty ones: flush, and with text on the first and on the last. -/
structure Framed (part : List String) : Prop where
  flush : ∀ line ∈ part, line = "" ∨ Solid line
  first : part.head? ≠ some ""
  last : part.getLast? ≠ some ""

theorem framed_of_solid {part : List String} (solid : ∀ line ∈ part, Solid line) : Framed part where
  flush line member := Or.inr (solid line member)
  first head := (solid _ (List.mem_of_head? head)).ne_empty rfl
  last last := (solid _ (List.mem_of_getLast? last)).ne_empty rfl

section

variable {cs : List Char} {c : Char}

/-- The first line of a text starts as the text does. -/
theorem splitChars_head (head : cs.head? = some c) (other : c ≠ '\n') :
    ∃ piece, (SourceText.splitChars cs).head? = some piece ∧ c ∈ piece := by
  obtain ⟨rest, rfl⟩ := List.head?_eq_some_iff.mp head
  unfold SourceText.splitChars
  rw [if_neg other]
  split
  · exact ⟨_, rfl, List.mem_cons_self⟩
  · exact ⟨_, rfl, List.mem_cons_self⟩

/-- The last line of a text ends as the text does. -/
theorem splitChars_getLast (last : cs.getLast? = some c) (other : c ≠ '\n') :
    ∃ piece, (SourceText.splitChars cs).getLast? = some piece ∧ c ∈ piece := by
  induction cs with
  | nil => cases last
  | cons d rest ih =>
    cases rest with
    | nil =>
      obtain rfl : d = c := by simpa using last
      simp [SourceText.splitChars, other]
    | cons next more =>
      rw [List.getLast?_cons_cons] at last
      obtain ⟨piece, found, member⟩ := ih last
      unfold SourceText.splitChars
      split
      next => exact ⟨piece, by rw [List.getLast?_cons, found]; rfl, member⟩
      next =>
        split
        next none => rw [none] at found; cases found
        next line behind split =>
          rw [split] at found
          cases behind with
          | nil =>
            obtain rfl : line = piece := by simpa using found
            exact ⟨d :: line, rfl, List.mem_cons_of_mem _ member⟩
          | cons other behind =>
            exact ⟨piece, by rw [List.getLast?_cons_cons] at found ⊢; exact found, member⟩

end

/-- The lines of a documentation that is not blank, trimmed one by one. Of the text as a whole the
first and the last character are not white, so the first and the last line have text. -/
theorem framed_documentation {text : String} (dark : isBlank text = false) :
    Framed ((SourceText.ofText (trim text)).lines.map trim) := by
  have noNewline : ∀ {c : Char}, isWhite c = false → c ≠ '\n' := by
    rintro _ dark rfl
    cases dark
  have speaks : ∀ {piece : List Char} {c : Char}, c ∈ piece → isWhite c = false →
      trim (String.ofList piece) ≠ "" := by
    intro piece c member dark empty
    have within := mem_trim (s := String.ofList piece) (by rwa [String.toList_ofList]) dark
    rw [empty] at within
    cases within
  have some : trimChars text.toList ≠ [] := by
    rw [ne_eq, trimChars_eq_nil, ← Bool.not_eq_false]
    exact not_not_intro dark
  have lines : (SourceText.ofText (trim text)).lines =
      (SourceText.splitChars (trimChars text.toList)).map String.ofList := by
    rw [SourceText.ofText, trim, String.toList_ofList]
  rw [lines, List.map_map]
  refine ⟨?_, ?_, ?_⟩
  · intro line member
    obtain ⟨piece, _, rfl⟩ := List.mem_map.mp member
    by_cases empty : trim (String.ofList piece) = ""
    · exact Or.inl empty
    · exact Or.inr (solid_trim empty)
  · obtain ⟨c, rest, chars⟩ := List.exists_cons_of_ne_nil some
    have dark := isWhite_head_trimChars chars
    have head : (trimChars text.toList).head? = Option.some c := by
      rw [chars, List.head?_cons]
    obtain ⟨piece, first, member⟩ := splitChars_head head (noNewline dark)
    rw [List.head?_map, first, Option.map_some, ne_eq, Option.some_inj]
    exact speaks member dark
  · have ends := List.getLast?_eq_some_getLast some
    have dark := isWhite_getLast_trimChars ends
    obtain ⟨piece, last, member⟩ := splitChars_getLast ends (noNewline dark)
    rw [List.getLast?_map, last, Option.map_some, ne_eq, Option.some_inj]
    exact speaks member dark

section

variable {conventions : Conventions} {e : Element}

theorem solid_parameterSection (f : Element) :
    ∀ line ∈ parameterSection conventions f, Solid line := by
  intro line member
  obtain ⟨p, _, inLines⟩ := List.mem_flatMap.mp member
  have param : Solid ":param " := by decide
  have type : Solid ":type " := by decide
  rcases List.mem_cons.mp inLines with rfl | inHint
  · exact (((param.append _).append _).append _).append _
  · split at inHint
    next => cases inHint
    next =>
      split at inHint
      next => cases inHint
      next =>
        obtain rfl := List.mem_singleton.mp inHint
        exact ((type.append _).append _).append _

theorem solid_basesSection (bases : List String) : ∀ line ∈ basesSection bases, Solid line := by
  intro line member
  have one : Solid "Extends class " := by decide
  have several : Solid "Extends classes " := by decide
  unfold basesSection at member
  split at member
  next => cases member
  next =>
    obtain rfl := List.mem_singleton.mp member
    exact (one.append _).append _
  next =>
    obtain rfl := List.mem_singleton.mp member
    exact (several.append _).append _

theorem solid_namesSection {heading : String} (solid : Solid heading) (field : String)
    (names : List String) : ∀ line ∈ namesSection heading field names, Solid line := by
  intro line member
  have mark : Solid ":" := by decide
  unfold namesSection at member
  split at member
  next => cases member
  next =>
    rcases List.mem_cons.mp member with rfl | inNames
    · exact solid
    · obtain ⟨name, _, rfl⟩ := List.mem_map.mp inNames
      exact ((((mark.append _).append _).append _).append _).append _

theorem solid_functionSections (f : Element) :
    ∀ part ∈ functionSections conventions f, ∀ line ∈ part, Solid line := by
  have returns : Solid ":returns: " := by decide
  have raises : Solid ":raises " := by decide
  intro part member line inPart
  obtain rfl := List.mem_singleton.mp member
  rcases List.mem_append.mp inPart with before | inRaised
  · rcases List.mem_append.mp before with inParameters | inReturns
    · exact solid_parameterSection f line inParameters
    · obtain ⟨hint, _, rfl⟩ := List.mem_map.mp inReturns
      exact ((returns.append _).append _).append _
  · obtain ⟨u, _, rfl⟩ := List.mem_map.mp inRaised
    exact ((raises.append _).append _).append _

/-- The element is a class and the documentation of its constructor goes into its block. -/
def QuotesConstructor (e : Element) : Prop :=
  e.isClass = true ∧ ∃ c ∈ e.constructor, c.isDocumented = true

theorem solid_constructorSection {constructor : Option Element}
    (undocumented : ∀ c ∈ constructor, c.isDocumented = false) :
    ∀ line ∈ constructorSection conventions constructor, Solid line := by
  cases constructor with
  | none => exact List.forall_mem_nil _
  | some c =>
    rw [constructorSection, if_neg (by rw [undocumented c rfl]; exact Bool.false_ne_true)]
    exact solid_parameterSection c

/-- Where no documentation is taken over every line of a section has text. -/
theorem solid_sections (conventions : Conventions) (own : ¬ QuotesConstructor e) :
    ∀ part ∈ sections conventions e, ∀ line ∈ part, Solid line := by
  unfold sections
  split
  next isClass =>
    have undocumented : ∀ c ∈ e.constructor, c.isDocumented = false := fun c built =>
      Bool.eq_false_iff.mpr fun documented => own ⟨isClass, c, built, documented⟩
    simp only [classSections, List.forall_mem_cons]
    exact ⟨solid_basesSection _, solid_namesSection (by decide) _ _,
      solid_namesSection (by decide) _ _, solid_constructorSection undocumented,
      List.forall_mem_nil _⟩
  next => exact solid_functionSections e

theorem framed_constructorSection (constructor : Option Element) :
    Framed (constructorSection conventions constructor) := by
  cases constructor with
  | none => exact framed_of_solid (List.forall_mem_nil _)
  | some c =>
    by_cases documented : c.isDocumented = true
    · have dark : isBlank c.documentation = false := by
        simpa [Element.isDocumented] using documented
      rw [constructorSection, if_pos documented]
      exact framed_documentation dark
    · rw [constructorSection, if_neg documented]
      exact framed_of_solid (solid_parameterSection c)

theorem framed_sections (conventions : Conventions) (e : Element) :
    ∀ part ∈ sections conventions e, Framed part := by
  unfold sections
  split
  next =>
    simp only [classSections, List.forall_mem_cons]
    exact ⟨framed_of_solid (solid_basesSection _),
      framed_of_solid (solid_namesSection (by decide) _ _),
      framed_of_solid (solid_namesSection (by decide) _ _), framed_constructorSection _,
      List.forall_mem_nil _⟩
  next => exact fun part member => framed_of_solid (solid_functionSections e part member)

end

theorem spaced_cons (part : List String) (rest : List (List String)) :
    spaced (part :: rest) = (if part.isEmpty then [] else "" :: part) ++ spaced rest := rfl

theorem getLast?_spaced {parts : List (List String)} (framed : ∀ part ∈ parts, Framed part) :
    (spaced parts).getLast? ≠ some "" := by
  induction parts with
  | nil => exact nofun
  | cons part rest ih =>
    obtain ⟨first, others⟩ := List.forall_mem_cons.mp framed
    rw [spaced_cons, List.getLast?_append]
    cases behind : (spaced rest).getLast? with
    | some line =>
      rw [← behind, behind, Option.some_or, ← behind]
      exact ih others
    | none =>
      rw [Option.none_or]
      cases part with
      | nil => exact nofun
      | cons line more => exact first.last

/-- Sections set apart by empty lines, behind a first line. -/
theorem framed_spaced {parts : List (List String)} (framed : ∀ part ∈ parts, Framed part)
    {line : String} (solid : Solid line) : Framed (line :: spaced parts) := by
  refine ⟨?_, fun head => solid.ne_empty (Option.some_inj.mp head), ?_⟩
  · intro x member
    rcases List.mem_cons.mp member with rfl | later
    · exact Or.inr solid
    · obtain ⟨part, inParts, within⟩ := List.mem_flatMap.mp later
      split at within
      next => cases within
      next =>
        rcases List.mem_cons.mp within with rfl | inPart
        · exact Or.inl rfl
        · exact (framed part inParts).flush x inPart
  · rw [List.getLast?_cons]
    cases behind : (spaced parts).getLast? with
    | none => exact fun same => solid.ne_empty (Option.some_inj.mp same)
    | some last => exact behind ▸ getLast?_spaced framed

/-- No two empty lines follow each other. -/
def Gapless (lines : List String) : Prop := lines.IsChain fun a b => a ≠ "" ∨ b ≠ ""

theorem gapless_append {part tail : List String} (solid : ∀ line ∈ part, Solid line)
    (behind : ∀ line, line ≠ "" → Gapless (line :: tail)) {line : String} (some : line ≠ "") :
    Gapless (line :: (part ++ tail)) := by
  induction part generalizing line with
  | nil => exact behind line some
  | cons next more ih =>
    obtain ⟨first, others⟩ := List.forall_mem_cons.mp solid
    exact List.IsChain.cons_cons (Or.inl some) (ih others first.ne_empty)

/-- An empty line between sections has text in front of it and behind it. -/
theorem gapless_spaced {parts : List (List String)}
    (solid : ∀ part ∈ parts, ∀ line ∈ part, Solid line) {line : String} (some : line ≠ "") :
    Gapless (line :: spaced parts) := by
  induction parts generalizing line with
  | nil => exact List.IsChain.singleton _
  | cons part rest ih =>
    obtain ⟨first, others⟩ := List.forall_mem_cons.mp solid
    rw [spaced_cons]
    cases part with
    | nil => exact ih others some
    | cons next more =>
      obtain ⟨text, later⟩ := List.forall_mem_cons.mp first
      have inner := gapless_append later (fun line => ih others) text.ne_empty
      exact List.IsChain.cons_cons (Or.inl some)
        (List.IsChain.cons_cons (Or.inr text.ne_empty) inner)

section

variable {σ : Type} {t : Toolkit σ} {name : String}

theorem head_append {a : String} {c : Char} (head : a.toList.head? = some c) (b : String) :
    (a ++ b).toList.head? = some c := by
  rw [String.toList_append, List.head?_append, head]
  rfl

theorem classSentence_head (tokens : List Token) :
    (classSentence tokens).toList.head? = some 'T' := by
  have joined : ("This class represents " ++ phrase tokens ++ "s.").toList.head? = some 'T' :=
    head_append (head_append rfl _) _
  unfold classSentence
  split
  next =>
    split
    next => exact head_append (head_append (head_append (head_append rfl _) _) _) _
    next => exact joined
  next => exact joined

theorem actionSentence_head (stem : String) (rest : List Token) :
    (actionSentence stem rest).toList.head? = some 'T' := by
  unfold actionSentence
  split
  next => exact head_append (head_append rfl _) _
  next => exact head_append (head_append (head_append (head_append rfl _) _) _) _

theorem functionSentence_head {sentence : String} {s s' : σ}
    (done : (functionSentence t name).run.run s = (.ok (some sentence), s')) :
    sentence.toList.head? = some 'T' := by
  obtain ⟨tokens, tagged, _, done⟩ := answers_of_bind done
  cases tokens with
  | nil => cases done
  | cons token tokens =>
    dsimp only at done
    split at done
    next =>
      obtain ⟨stems, stemmed, _, done⟩ := answers_of_bind done
      cases done
      exact actionSentence_head _ _
    next =>
      cases done
      exact head_append (head_append (head_append (head_append rfl _) _) _) _

/-- Every description of a class starts with the same letter. -/
theorem describeClass_head (toolkit : Option (Toolkit σ)) (name : String) (state : σ) :
    ((describeClass toolkit name).run state).1.toList.head? = some 'T' := by
  have placeholder : classPlaceholder.toList.head? = some 'T' := Describes.head ⟨_, rfl⟩
  cases toolkit with
  | none => exact placeholder
  | some t =>
    unfold describeClass
    rw [StateT.run_bind]
    rcases (t.tagIdentifier name).run.run state with ⟨_ | _ | ⟨token, tokens⟩, after⟩
    · exact placeholder
    · exact placeholder
    · exact classSentence_head _

/-- Every description of a function starts with the same letter. -/
theorem describeFunction_head (toolkit : Option (Toolkit σ)) (name : String) (state : σ) :
    ((describeFunction toolkit name).run state).1.toList.head? = some 'T' := by
  have placeholder : functionPlaceholder.toList.head? = some 'T' := Describes.head ⟨_, rfl⟩
  cases toolkit with
  | none => exact placeholder
  | some t =>
    unfold describeFunction
    rw [StateT.run_bind]
    rcases ran : (functionSentence t name).run.run state with ⟨_ | _ | sentence, after⟩
    · exact placeholder
    · exact placeholder
    · exact functionSentence_head ran

theorem functionOpening_head {conventions : Conventions} {e : Element} {description : String}
    (head : description.toList.head? = some 'T') :
    (functionOpening conventions e description).toList.head? = some 'T' :=
  sentences_head _ _ head

/-- Every opening starts with the same letter, whatever a toolkit says. -/
theorem opening_head (conventions : Conventions) (toolkit : Option (Toolkit σ)) (e : Element)
    (state : σ) : ((opening conventions toolkit e).run state).1.toList.head? = some 'T' := by
  cases kind : e.isClass with
  | true =>
    unfold opening
    rw [kind]
    exact describeClass_head toolkit e.name state
  | false =>
    cases special : specialSentence? e.name with
    | some sentence =>
      rw [opening_of_special kind special, run_pure]
      exact functionOpening_head (head_of_find? specialSentences_describe special)
    | none =>
      have opens : ((opening conventions toolkit e).run state).1 =
          functionOpening conventions e ((describeFunction toolkit e.name).run state).1 := by
        rw [opening_of_ordinary kind special, run_map]
      rw [opens]
      exact functionOpening_head (describeFunction_head toolkit e.name state)

end

section

variable {line : String}

theorem indented_eq_empty_iff (depth : Nat) : indented depth line = "" ↔ line = "" := by
  constructor
  · intro empty
    by_contra some
    have chars := toList_indented some depth
    rw [empty, eq_comm, String.toList_empty, List.append_eq_nil_iff] at chars
    exact some (String.toList_inj.mp chars.2)
  · rintro rfl
    rfl

/-- A flush line is indented to its text, or empty still. -/
theorem indented_flush (depth : Nat) (flush : line = "" ∨ Solid line) :
    indented depth line = "" ∨ ∃ c rest, isWhite c = false ∧
      (indented depth line).toList = List.replicate depth '\t' ++ c :: rest := by
  rcases flush with rfl | solid
  · exact Or.inl rfl
  · have some := solid.ne_empty
    obtain ⟨c, head, dark⟩ := solid
    obtain ⟨rest, chars⟩ := List.head?_eq_some_iff.mp head
    exact Or.inr ⟨c, rest, dark, by rw [toList_indented some, chars]⟩

/-- A line that a splice would drop has nothing but quotes between its white space. -/
theorem not_isDisposable_of_mem {c : Char} (member : c ∈ line.toList) (dark : isWhite c = false)
    (noQuote : Splice.isQuote c = false) : Splice.isDisposable line = false := by
  rw [Splice.isDisposable, List.all_eq_false]
  exact ⟨c, mem_trim member dark, by simp [noQuote]⟩

end

/-- A block starts and ends with its delimiter at the depth of the element's body. The lines between
start and end with text, and each of them is empty or has its text flush at that depth. Two empty
lines follow each other only in the documentation of a constructor. The first of the lines has a
character that is neither white nor a quote, so a splice does not drop it. -/
theorem block_layout {σ : Type} (conventions : Conventions) (toolkit : Option (Toolkit σ))
    (e : Element) (state : σ) :
    let lines := ((block conventions toolkit e).run state).1
    let tabs := List.replicate (e.context.length + 1) '\t'
    let ending := String.ofList (tabs ++ ['"', '"', '"'])
    ∃ interior, lines = ending :: interior ++ [ending] ∧
      interior ≠ [] ∧ interior.head? ≠ some "" ∧ interior.getLast? ≠ some "" ∧
      (∀ line ∈ interior, line = "" ∨
        ∃ c rest, isWhite c = false ∧ line.toList = tabs ++ c :: rest) ∧
      (∀ before after, interior = before ++ "" :: "" :: after →
        e.isClass = true ∧ ∃ c ∈ e.constructor, c.isDocumented = true) ∧
      ∃ first, interior.head? = some first ∧
        (∃ c ∈ first.toList, isWhite c = false ∧ c ≠ '"' ∧ c ≠ '\'') ∧
        Splice.isDisposable first = false := by
  intro lines tabs ending
  let opens := ((opening conventions toolkit e).run state).1
  have head : opens.toList.head? = some 'T' := opening_head conventions toolkit e state
  have solid : Solid opens := ⟨'T', head, by decide⟩
  have framed := framed_spaced (framed_sections conventions e) solid
  let plain := opens :: spaced (sections conventions e)
  have shape : lines = ending :: plain.map (indented e.bodyDepth) ++ [ending] := by
    have delimits : indented e.bodyDepth delimiter = ending := by
      apply String.toList_inj.mp
      rw [toList_indented (by decide), String.toList_ofList]
      rfl
    simp only [lines, block_run, delimits]
    rfl
  have keeps : ∀ line : Option String, line ≠ some "" →
      line.map (indented e.bodyDepth) ≠ some "" := by
    rintro (_ | line) some same
    · cases same
    · exact some (congrArg _ ((indented_eq_empty_iff _).mp (Option.some_inj.mp same)))
  have first : 'T' ∈ (indented e.bodyDepth opens).toList := by
    rw [toList_indented solid.ne_empty]
    exact List.mem_append_right _ (List.mem_of_mem_head? head)
  refine ⟨plain.map (indented e.bodyDepth), shape, List.cons_ne_nil _ _, ?_, ?_, ?_, ?_, _, rfl,
    ⟨'T', first, by decide, by decide, by decide⟩,
    not_isDisposable_of_mem first (by decide) (by decide)⟩
  · rw [List.head?_map]
    exact keeps _ framed.first
  · rw [List.getLast?_map]
    exact keeps _ framed.last
  · intro line member
    obtain ⟨text, inPlain, rfl⟩ := List.mem_map.mp member
    exact indented_flush _ (framed.flush text inPlain)
  · intro before after split
    by_contra own
    have gapless : Gapless plain :=
      gapless_spaced (solid_sections conventions own) solid.ne_empty
    have mapped : Gapless (plain.map (indented e.bodyDepth)) := by
      refine List.isChain_map_of_isChain _ (fun a b some => ?_) gapless
      rwa [ne_eq, ne_eq, indented_eq_empty_iff, indented_eq_empty_iff]
    rw [split] at mapped
    obtain ⟨_, some, _⟩ := List.isChain_append_cons_cons.mp mapped
    exact some.elim (fun some => some rfl) fun some => some rfl

/-- A constructor whose documentation has empty lines and white space at its ends. -/
theorem block_layout_documented_constructor :
    let init : Element := {
      name := "__init__", kind := .method, startLine := 2, endLine := 3, owner := "Ball"
      documentation := " \n  Make a ball.\r\n\t\n \n   Of any size.\n", totalLines := 2
      linesOfCode := 0 }
    let e : Element := {
      name := "Ball", kind := .classDef, startLine := 1, endLine := 3, constructor := some init
      totalLines := 3, linesOfCode := 3 }
    let lines := ((block {} (none : Option (Toolkit Unit)) e).run ()).1
    ∃ interior, lines = "\t\"\"\"" :: interior ++ ["\t\"\"\""] ∧
      interior = ["\tThis class XXX .", "", "\tMake a ball."] ++ "" :: "" :: ["\tOf any size."] ∧
      e.isClass = true ∧ ∃ c ∈ e.constructor, c.isDocumented = true := by
  intro init e lines
  obtain ⟨interior, shape, _, _, _, _, gaps, _⟩ :=
    block_layout {} (none : Option (Toolkit Unit)) e ()
  have shape : lines = "\t\"\"\"" :: interior ++ ["\t\"\"\""] := shape
  have computed : lines = "\t\"\"\"" :: (["\tThis class XXX .", "", "\tMake a ball."] ++
    "" :: "" :: ["\tOf any size."]) ++ ["\t\"\"\""] := by decide
  have whole : interior = ["\tThis class XXX .", "", "\tMake a ball."] ++
      "" :: "" :: ["\tOf any size."] :=
    List.append_cancel_right (List.cons.inj (shape.symm.trans computed)).2
  exact ⟨interior, shape, whole, gaps _ _ whole⟩

end AutoDoc.Docstring
