import AutoDoc.Proofs.Docstring.Plain
import AutoDoc.Proofs.Element.Texts

/-!
# Blocks that keep their string open

The lines of a block are put together from the texts of an element and fixed words. A property that
texts put together keep unless quotes meet (`Joinable`) passes from the texts of an element to the
lines between the delimiters of its block (`Joinable.plainText`). Quotes meet in one place only,
around a default that is put in quotes. So if neither a newline nor the delimiter of blocks stands
in those texts, neither stands on a line between the delimiters (`plainText_inline`), as long as no
such default makes a delimiter with its quotes.
-/

namespace AutoDoc

/-- A run of three in two parts lies in one of them, or where they meet. -/
theorem Text.triple_within_append {q : Char} {a b : List Char}
    (within : [q, q, q] <:+: a ++ b) :
    [q, q, q] <:+: a ∨ [q, q, q] <:+: b ∨ a.getLast? = some q ∧ b.head? = some q := by
  induction a with
  | nil => exact Or.inr (Or.inl within)
  | cons x a ih =>
    rw [List.cons_append, List.infix_cons_iff] at within
    rcases within with starts | later
    · obtain ⟨rest, same⟩ := starts
      match a, same with
      | [], same =>
        simp only [List.cons_append, List.nil_append, List.cons.injEq] at same
        obtain ⟨rfl, rfl⟩ := same
        exact Or.inr (Or.inr ⟨rfl, rfl⟩)
      | [y], same =>
        simp only [List.cons_append, List.nil_append, List.cons.injEq] at same
        obtain ⟨rfl, rfl, rfl⟩ := same
        exact Or.inr (Or.inr ⟨rfl, rfl⟩)
      | y :: z :: more, same =>
        simp only [List.cons_append, List.nil_append, List.cons.injEq] at same
        obtain ⟨rfl, rfl, rfl, _⟩ := same
        exact Or.inl ⟨[], more, rfl⟩
    · rcases ih later with inA | inB | ⟨last, first⟩
      · exact Or.inl (List.infix_cons inA)
      · exact Or.inr (Or.inl inB)
      · refine Or.inr (Or.inr ⟨?_, first⟩)
        cases a with
        | nil => cases last
        | cons y more => rw [List.getLast?_cons_cons, last]

namespace Docstring

/-- The delimiter of blocks does not occur in the text. -/
def Undelimited (s : String) : Prop := Text.occursIn delimiter s = false

instance (s : String) : Decidable (Undelimited s) := inferInstanceAs (Decidable (_ = _))

theorem undelimited_iff (s : String) : Undelimited s ↔ ¬ ['"', '"', '"'] <:+: s.toList := by
  rw [Undelimited, ← Bool.not_eq_true, Text.occursIn_iff]
  rfl

theorem Undelimited.stretch {part whole : String} (within : part.toList <:+: whole.toList)
    (undelimited : Undelimited whole) : Undelimited part := by
  rw [undelimited_iff] at undelimited ⊢
  exact fun occurs => undelimited (occurs.trans within)

/-- A text that can stand on a line of a block: without newline and without delimiter. -/
def Inline (s : String) : Prop := '\n' ∉ s.toList ∧ Text.occursIn delimiter s = false

instance (s : String) : Decidable (Inline s) := inferInstanceAs (Decidable (_ ∧ _))

theorem Inline.undelimited {s : String} (inline : Inline s) : Undelimited s := inline.2

theorem Inline.stretch {part whole : String} (within : part.toList <:+: whole.toList)
    (inline : Inline whole) : Inline part :=
  ⟨fun newline => inline.1 (within.subset newline), inline.undelimited.stretch within⟩

theorem Inline.isOdd {s : String} (inline : Inline s) : TripleQuote.double.isOdd s = false := by
  apply TripleQuote.isOdd_of_cut_none
  change Text.cutChars? delimiter.toList s.toList = none
  simpa [Text.occursIn] using inline.2

theorem inline_of_line {source line : String} (stringless : TripleQuote.Absent source)
    (member : line ∈ (SourceText.ofText source).lines) : Inline line :=
  ⟨SourceText.ofText_noNewline source line member, (stringless.line member) .double (by decide)⟩

/-- A fixed text that quotes cannot meet. -/
def Fixed (s : String) : Prop := ∀ c ∈ s.toList, c ≠ '\n' ∧ c ≠ '"'

instance (s : String) : Decidable (Fixed s) := List.decidableBAll _ _

theorem fixed_ofList {s : String} (cs : List Char) (same : s = String.ofList cs)
    (plain : (cs.all fun c => c != '\n' && c != '"') = true) : Fixed s := by
  subst same
  unfold Fixed
  rw [String.toList_ofList]
  simpa using plain

theorem Fixed.undelimited {s : String} (fixed : Fixed s) : Undelimited s := by
  rw [undelimited_iff]
  exact fun occurs => (fixed _ (occurs.subset List.mem_cons_self)).2 rfl

/-- Two texts without delimiter make none unless quotes meet. -/
theorem Undelimited.append {a b : String} (first : Undelimited a) (second : Undelimited b)
    (seam : a.toList.getLast? ≠ some '"' ∨ b.toList.head? ≠ some '"') : Undelimited (a ++ b) := by
  rw [undelimited_iff] at first second ⊢
  rw [String.toList_append]
  intro occurs
  rcases Text.triple_within_append occurs with inFirst | inSecond | ⟨last, head⟩
  · exact first inFirst
  · exact second inSecond
  · rcases seam with noLast | noHead
    · exact noLast last
    · exact noHead head

/-- A property of texts that fixed texts have, and texts put together unless quotes meet. -/
structure Joinable (P : String → Prop) : Prop where
  fixed : ∀ {s : String}, Fixed s → P s
  append : ∀ {a b : String}, P a → P b →
    a.toList.getLast? ≠ some '"' ∨ b.toList.head? ≠ some '"' → P (a ++ b)

theorem undelimited_joinable : Joinable Undelimited := ⟨Fixed.undelimited, Undelimited.append⟩

theorem inline_joinable : Joinable Inline where
  fixed fixed := ⟨fun newline => (fixed _ newline).1 rfl, fixed.undelimited⟩
  append first second seam := by
    refine ⟨?_, first.undelimited.append second.undelimited seam⟩
    rw [String.toList_append, List.mem_append, not_or]
    exact ⟨first.1, second.1⟩

/-- The default of a parameter is put in quotes. -/
def quotesDefault (p : Parameter) : Bool :=
  p.typeHint.any fun hint => textHints.contains (Text.trim hint)

/-- A default that is put in quotes makes no delimiter with them. -/
def PlainDefault (p : Parameter) : Prop :=
  quotesDefault p = true → ∀ d ∈ p.default, Text.occursIn delimiter ("\"" ++ d ++ "\"") = false

instance (p : Parameter) : Decidable (PlainDefault p) :=
  inferInstanceAs (Decidable (_ → ∀ d ∈ p.default, _))

/-- The parameters that the block of an element lists: its own, for a class those of a constructor
without documentation. -/
def listedParameters (conventions : Conventions) (e : Element) : List Parameter :=
  if e.isClass then
    match e.constructor with
    | none => []
    | some c => if c.isDocumented then [] else ownParameters conventions c
  else ownParameters conventions e

section

variable {P : String → Prop} {conventions : Conventions} {e : Element}

theorem mem_ownParameters {p : Parameter} (member : p ∈ ownParameters conventions e) :
    p ∈ e.parameters := by
  unfold ownParameters at member
  split at member
  next => cases member
  next first rest all =>
    rw [all]
    split at member
    next => exact List.mem_cons_of_mem _ member
    next => exact member

theorem mem_listedParameters {p : Parameter} (member : p ∈ listedParameters conventions e) :
    p ∈ e.parameters ∨ ∃ c ∈ e.constructor, p ∈ c.parameters := by
  unfold listedParameters at member
  split at member
  next =>
    split at member
    next => cases member
    next c built =>
      split at member
      next => cases member
      next => exact Or.inr ⟨c, built, mem_ownParameters member⟩
  next => exact Or.inl (mem_ownParameters member)

theorem verbSentences_fixed : ∀ pair ∈ verbSentences, Fixed pair.2 := by
  unfold verbSentences
  repeat refine List.forall_mem_cons.mpr ⟨fixed_ofList _ rfl (by decide), ?_⟩
  exact List.forall_mem_nil _

theorem specialSentences_fixed : ∀ pair ∈ specialSentences, Fixed pair.2 := by
  unfold specialSentences
  repeat refine List.forall_mem_cons.mpr ⟨fixed_ofList _ rfl (by decide), ?_⟩
  exact List.forall_mem_nil _

namespace Joinable

variable (joins : Joinable P)
include joins

theorem fixed_append {a b : String} (fixed : Fixed a) (second : P b) : P (a ++ b) := by
  refine joins.append (joins.fixed fixed) second (Or.inl fun last => ?_)
  exact (fixed _ (List.mem_of_getLast? last)).2 rfl

theorem append_fixed {a b : String} (first : P a) (fixed : Fixed b) : P (a ++ b) := by
  refine joins.append first (joins.fixed fixed) (Or.inr fun head => ?_)
  exact (fixed _ (List.mem_of_head? head)).2 rfl

/-- A text between fixed ones. -/
theorem between {a m b : String} (before : Fixed a) (middle : P m) (after : Fixed b) :
    P (a ++ m ++ b) :=
  joins.append_fixed (joins.fixed_append before middle) after

/-- Two texts with a fixed one between them. -/
theorem join {a m b : String} (first : P a) (fixed : Fixed m) (some : m.toList ≠ [])
    (second : P b) : P (a ++ m ++ b) := by
  refine joins.append (joins.append_fixed first fixed) second (Or.inl fun last => ?_)
  rw [String.toList_append, List.getLast?_append_of_ne_nil _ some] at last
  exact (fixed _ (List.mem_of_getLast? last)).2 rfl

/-- Texts with a fixed one between them. -/
theorem intercalate {separator : String} (fixed : Fixed separator)
    (some : separator.toList ≠ []) {pieces : List String} (each : ∀ s ∈ pieces, P s) :
    P (String.intercalate separator pieces) := by
  induction pieces with
  | nil => exact joins.fixed (by decide : Fixed "")
  | cons piece rest ih =>
    have first := each piece List.mem_cons_self
    have others := ih fun s member => each s (List.mem_cons_of_mem _ member)
    cases rest with
    | nil => simpa using first
    | cons next rest =>
      rw [String.intercalate_cons_cons]
      exact joins.join first fixed some others

theorem indented {line : String} (has : P line) (depth : Nat) :
    P (Docstring.indented depth line) := by
  unfold Docstring.indented
  split
  next => exact has
  next =>
    refine joins.fixed_append ?_ has
    intro c member
    rw [String.toList_ofList] at member
    obtain rfl := List.eq_of_mem_replicate member
    decide

/-- The lines on a parameter have what its texts have, if its quoted default has it as well. -/
theorem parameterLines {p : Parameter} (texts : p.Texts P)
    (quoted : quotesDefault p = true → ∀ d ∈ p.default, P ("\"" ++ d ++ "\"")) :
    ∀ line ∈ parameterLines p, P line := by
  have front : P (":param " ++ p.name ++ ": ") := joins.between (by decide) texts.name (by decide)
  intro line member
  rcases List.mem_cons.mp member with rfl | inHint
  · refine joins.join front (by decide) (by decide) ?_
    cases given : p.default with
    | none => exact joins.fixed (by decide : Fixed "")
    | some d =>
      dsimp only
      split
      next inQuotes =>
        have parts : ". (Default=\"" ++ d ++ "\")" =
            ". (Default=" ++ ("\"" ++ d ++ "\"") ++ ")" := by
          apply String.toList_inj.mp
          simp
        rw [parts]
        exact joins.between (by decide) (quoted inQuotes d given) (by decide)
      next => exact joins.between (by decide) (texts.default d given) (by decide)
  · split at inHint
    next => cases inHint
    next h hinted =>
      split at inHint
      next => cases inHint
      next =>
        obtain rfl := List.mem_singleton.mp inHint
        exact joins.join (joins.fixed_append (by decide) texts.name) (by decide) (by decide)
          (texts.hint h hinted)

theorem basesSection {bases : List String} (each : ∀ base ∈ bases, P base) :
    ∀ line ∈ basesSection bases, P line := by
  intro line member
  unfold Docstring.basesSection at member
  split at member
  next => cases member
  next base =>
    obtain rfl := List.mem_singleton.mp member
    exact joins.between (by decide) (each base List.mem_cons_self) (by decide)
  next =>
    obtain rfl := List.mem_singleton.mp member
    exact joins.between (by decide) (joins.intercalate (by decide) (by decide) each) (by decide)

theorem namesSection {heading field : String} (fixedHeading : Fixed heading)
    (fixedField : Fixed (":" ++ field ++ " ")) {names : List String}
    (each : ∀ name ∈ names, P name) :
    ∀ line ∈ namesSection heading field names, P line := by
  intro line member
  unfold Docstring.namesSection at member
  split at member
  next => cases member
  next =>
    rcases List.mem_cons.mp member with rfl | inNames
    · exact joins.fixed fixedHeading
    · obtain ⟨name, given, rfl⟩ := List.mem_map.mp inNames
      exact joins.append_fixed (joins.between fixedField (each name given) (by decide)) (by decide)

theorem displayName {u : ExceptionUse} (texts : u.Texts P) : P u.displayName := by
  unfold ExceptionUse.displayName
  split
  next l named =>
    split
    next => exact texts.name
    next => exact joins.join texts.name (by decide) (by decide) (texts.localName l named)
  next => exact texts.name

/-- What the lines of a block show behind its opening: the texts of the element, the parameters
that it lists with their defaults in the quotes they are put in, and the documentation of a
constructor. -/
theorem sections (texts : e.Texts P)
    (listed : ∀ p ∈ listedParameters conventions e, p.Texts P ∧
      (quotesDefault p = true → ∀ d ∈ p.default, P ("\"" ++ d ++ "\"")))
    (documentation : ∀ c ∈ e.constructor, c.isDocumented = true →
      ∀ line ∈ (SourceText.ofText (Text.trim c.documentation)).lines, P (Text.trim line)) :
    ∀ part ∈ sections conventions e, ∀ line ∈ part, P line := by
  have ofParameters : ∀ owner : Element,
      ownParameters conventions owner = listedParameters conventions e →
      ∀ line ∈ parameterSection conventions owner, P line := by
    intro owner own line member
    rw [parameterSection, own] at member
    obtain ⟨p, inListed, inLines⟩ := List.mem_flatMap.mp member
    exact joins.parameterLines (listed p inListed).1 (listed p inListed).2 line inLines
  intro part member line inPart
  unfold Docstring.sections at member
  split at member
  next isClass =>
    simp only [classSections, List.mem_cons, List.not_mem_nil, or_false] at member
    rcases member with rfl | rfl | rfl | rfl
    · exact joins.basesSection texts.bases line inPart
    · exact joins.namesSection (by decide) (by decide) texts.methods line inPart
    · exact joins.namesSection (by decide) (by decide) texts.attributes line inPart
    · unfold constructorSection at inPart
      split at inPart
      next => cases inPart
      next c built =>
        split at inPart
        next documented =>
          obtain ⟨plain, inDocumentation, rfl⟩ := List.mem_map.mp inPart
          exact documentation c built documented plain inDocumentation
        next undocumented =>
          refine ofParameters c ?_ line inPart
          simp [listedParameters, isClass, built, undocumented]
  next isFunction =>
    rw [functionSections, List.mem_singleton] at member
    subst member
    rcases List.mem_append.mp inPart with before | inRaised
    · rcases List.mem_append.mp before with inParameters | inReturns
      · refine ofParameters e ?_ line inParameters
        simp [listedParameters, isFunction]
      · obtain ⟨r, given, rfl⟩ := List.mem_map.mp inReturns
        have hint := texts.returns r (Option.mem_toList.mp given)
        exact joins.append_fixed (joins.between (by decide) hint (by decide)) (by decide)
    · obtain ⟨u, raised, rfl⟩ := List.mem_map.mp inRaised
      have shown := joins.displayName (texts.exceptions u raised)
      exact joins.append_fixed (joins.between (by decide) shown (by decide)) (by decide)

/-- The opening of an element names nothing but its owner. -/
theorem plainOpening (owner : P e.owner) : P (plainOpening conventions e) := by
  unfold Docstring.plainOpening
  split
  next => exact joins.fixed (by decide)
  next =>
    refine joins.intercalate (by decide) (by decide) ?_
    intro sentence member
    rcases List.mem_append.mp member with verb | later
    · obtain ⟨pair, found, rfl⟩ := Option.map_eq_some_iff.mp (Option.mem_toList.mp verb)
      exact joins.fixed (verbSentences_fixed pair (List.mem_of_find?_eq_some found))
    · simp only [List.mem_cons, List.not_mem_nil, or_false] at later
      rcases later with rfl | rfl
      · cases special : specialSentence? e.name with
        | none => exact joins.fixed (by decide)
        | some sentence =>
          obtain ⟨pair, found, rfl⟩ := Option.map_eq_some_iff.mp special
          exact joins.fixed (specialSentences_fixed pair (List.mem_of_find?_eq_some found))
      · unfold scopeSentence
        split
        next =>
          refine joins.append_fixed ?_ (by decide)
          refine joins.join (joins.fixed_append (by decide) ?_) (by decide) (by decide) owner
          have either : ∀ static : Bool, Fixed (if static then "static " else "") := by decide
          exact joins.fixed (either _)
        next => exact joins.fixed (by decide)

/-- What the texts of an element have, the lines between the delimiters of its block have. -/
theorem plainText (texts : e.Texts P)
    (listed : ∀ p ∈ listedParameters conventions e, p.Texts P ∧
      (quotesDefault p = true → ∀ d ∈ p.default, P ("\"" ++ d ++ "\"")))
    (documentation : ∀ c ∈ e.constructor, c.isDocumented = true →
      ∀ line ∈ (SourceText.ofText (Text.trim c.documentation)).lines, P (Text.trim line)) :
    ∀ line ∈ plainText conventions e, P line := by
  intro line member
  rcases List.mem_cons.mp member with rfl | inSections
  · exact joins.indented (joins.plainOpening texts.owner) _
  · obtain ⟨plain, within, rfl⟩ := List.mem_map.mp inSections
    refine joins.indented ?_ _
    obtain ⟨part, inPart, shown⟩ := List.mem_flatMap.mp within
    split at shown
    next => cases shown
    next =>
      rcases List.mem_cons.mp shown with rfl | inLines
      · exact joins.fixed (by decide)
      · exact joins.sections texts listed documentation part inPart plain inLines

end Joinable

/-- What a block needs of its element to keep its string open: texts without delimiter, no
constructor with documentation, and defaults that make no delimiter with their quotes. -/
structure Quiet (e : Element) : Prop where
  texts : e.Texts Inline
  defaults : ∀ p ∈ e.parameters, PlainDefault p
  constructor : ∀ c ∈ e.constructor, c.isDocumented = false ∧
    ∀ p ∈ c.parameters, p.Texts Inline ∧ PlainDefault p

/-- The lines between the delimiters of the block of a quiet element hold neither a newline nor a
delimiter. -/
theorem plainText_inline (quiet : Quiet e) : ∀ line ∈ plainText conventions e, Inline line := by
  refine inline_joinable.plainText quiet.texts ?_ ?_
  · intro p listed
    have own : p.Texts Inline ∧ PlainDefault p := by
      rcases mem_listedParameters listed with member | ⟨c, built, member⟩
      · exact ⟨quiet.texts.parameters p member, quiet.defaults p member⟩
      · exact (quiet.constructor c built).2 p member
    refine ⟨own.1, fun inQuotes d given => ⟨?_, own.2 inQuotes d given⟩⟩
    simpa using (own.1.default d given).1
  · intro c built documented
    rw [(quiet.constructor c built).1] at documented
    cases documented

end

end Docstring

end AutoDoc
