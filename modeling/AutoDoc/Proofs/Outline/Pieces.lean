import AutoDoc.Proofs.Outline.Headers
import AutoDoc.Proofs.Text.Stringless

/-!
# What an outline is made of

Every text that the reader by indentation reports, be it a name, a hint, a default or a base, is a
stretch of one line of the source. So a property that passes from a text to its stretches passes
from the lines of a source to its outline (`read_texts`).

The lemmas before say of each part of the reader that what it takes out of a line is a stretch of
it.
-/

namespace AutoDoc

namespace Text

theorem dropRightWhile_leads (p : Char → Bool) (cs : List Char) : dropRightWhile p cs <+: cs := by
  unfold dropRightWhile
  rw [← List.reverse_suffix, List.reverse_reverse]
  exact List.dropWhile_suffix p

theorem afterMark?_suffix {mark cs rest : List Char} (found : afterMark? mark cs = some rest) :
    rest <:+ cs :=
  ⟨mark, (afterMark?_eq_some found).symm⟩

theorem cutChars?_eq_some {mark cs before after : List Char}
    (found : cutChars? mark cs = some (before, after)) : cs = before ++ mark ++ after := by
  induction cs generalizing before with
  | nil =>
    unfold cutChars? at found
    split at found
    next empty =>
      cases found
      simp [List.isEmpty_iff.mp empty]
    next => cases found
  | cons c cs ih =>
    unfold cutChars? at found
    split at found
    next rest here =>
      cases found
      exact afterMark?_eq_some here
    next =>
      obtain ⟨⟨front, back⟩, inRest, same⟩ := Option.map_eq_some_iff.mp found
      cases same
      rw [ih inRest]
      rfl

end Text

theorem ScannedLine.text_of_mem_scanFrom {opened : Option TripleQuote} {lines : List String}
    {l : ScannedLine} (member : l ∈ (scanFrom opened lines).1) : l.text ∈ lines := by
  induction lines generalizing opened with
  | nil => cases member
  | cons line rest ih =>
    rcases List.mem_cons.mp member with rfl | later
    · exact List.mem_cons_self
    · exact List.mem_cons_of_mem _ (ih later)

namespace Outline

open Text

/-- The pieces of a text are parts of it. -/
theorem splitTopFrom_within (separator : Char) (depth : Int) (cs : List Char) :
    ∀ piece ∈ splitTopFrom separator depth cs, piece <:+: cs := by
  have pieces : (∀ piece ∈ splitTopFrom separator depth cs, piece <:+: cs) ∧
      ∀ first ∈ (splitTopFrom separator depth cs).head?, first <+: cs := by
    induction cs generalizing depth with
    | nil => simp [splitTopFrom]
    | cons c cs ih =>
      unfold splitTopFrom
      dsimp only
      generalize (if c == '(' || c == '[' || c == '\x7b' then depth + 1
        else if c == ')' || c == ']' || c == '\x7d' then depth - 1 else depth) = inner
      obtain ⟨within, leading⟩ := ih inner
      split
      next =>
        refine ⟨?_, by simp⟩
        intro piece member
        rcases List.mem_cons.mp member with rfl | later
        · exact List.nil_infix
        · exact List.infix_cons (within piece later)
      next =>
        cases split : splitTopFrom separator inner cs with
        | nil =>
          have alone : [c] <+: c :: cs := List.cons_prefix_cons.mpr ⟨rfl, List.nil_prefix⟩
          exact ⟨by simpa [extendFirst] using alone.isInfix, by simp [extendFirst]⟩
        | cons first rest =>
          rw [split] at within leading
          have longer : c :: first <+: c :: cs :=
            List.cons_prefix_cons.mpr ⟨rfl, leading first rfl⟩
          refine ⟨?_, by simpa [extendFirst] using leading first rfl⟩
          intro piece member
          rcases List.mem_cons.mp member with rfl | later
          · exact longer.isInfix
          · exact List.infix_cons (within piece (List.mem_cons_of_mem _ later))
  exact pieces.1

theorem splitArguments_within (cs : List Char) : ∀ piece ∈ splitArguments cs, piece <:+: cs := by
  intro piece member
  have inPieces : piece ∈ (splitTopFrom ',' 0 cs).map trimChars := by
    unfold splitArguments at member
    dsimp only at member
    split at member
    next => exact List.mem_of_mem_dropLast member
    next => exact member
  obtain ⟨raw, inText, rfl⟩ := List.mem_map.mp inPieces
  exact (trimChars_within raw).trans (splitTopFrom_within ',' 0 cs raw inText)

theorem betweenParens?_within {cs inner : List Char} (found : betweenParens? cs = some inner) :
    inner <:+: cs := by
  unfold betweenParens? at found
  split at found
  next => cases found
  next opening more behind =>
    split at found
    next => cases found
    next closed _ last =>
      cases found
      have inMore : dropRightWhile (· != ')') more <+: more := dropRightWhile_leads _ _
      have inText : more <:+: cs :=
        (List.suffix_cons opening more).isInfix.trans (behind ▸ (List.dropWhile_suffix _).isInfix)
      exact ((List.dropLast_prefix _).trans inMore).isInfix.trans inText

theorem unquoteWith?_within {quote : Char} {cs inner : List Char}
    (found : unquoteWith? quote cs = some inner) : inner <:+: cs := by
  unfold unquoteWith? at found
  split at found
  next =>
    cases found
    exact (List.dropLast_prefix _).isInfix.trans (List.tail_suffix cs).isInfix
  next => cases found

theorem unquote_within (cs : List Char) : unquote cs <:+: cs := by
  unfold unquote
  cases double : unquoteWith? '"' cs with
  | some inner => exact unquoteWith?_within double
  | none =>
    cases single : unquoteWith? '\'' cs with
    | some inner => simpa [single] using unquoteWith?_within single
    | none => simp

theorem cutAt_within (separator : Char) (cs : List Char) :
    (cutAt separator cs).1 <:+: cs ∧ ∀ behind ∈ (cutAt separator cs).2, behind <:+: cs := by
  unfold cutAt
  split
  next before after cut =>
    have parts := cutChars?_eq_some cut
    refine ⟨⟨[], separator :: after, by simp [parts]⟩, ?_⟩
    rintro behind ⟨⟩
    exact ⟨before ++ [separator], [], by simp [parts]⟩
  next => exact ⟨List.infix_refl _, fun _ member => by cases member⟩

theorem dropMarks_suffix (mark : List Char) (limit : Nat) (cs : List Char) :
    dropMarks mark limit cs <:+ cs := by
  induction limit generalizing cs with
  | zero => exact List.suffix_refl _
  | succ limit ih =>
    unfold dropMarks
    split
    next rest found => exact (ih rest).trans (afterMark?_suffix found)
    next => exact List.suffix_refl _

theorem functionRest_suffix (l : ScannedLine) : functionRest l <:+ l.trimmed :=
  (dropMarks_suffix _ _ _).trans (dropMarks_suffix _ _ _)

theorem returnsOf?_within {rest : List Char} {hint : String} (found : returnsOf? rest = some hint) :
    hint.toList <:+: rest := by
  obtain ⟨⟨before, after⟩, cut, rfl⟩ := Option.map_eq_some_iff.mp found
  obtain ⟨⟨back, front⟩, reversed, same⟩ := Option.map_eq_some_iff.mp cut
  cases same
  have parts := cutChars?_eq_some reversed
  rw [String.toList_ofList, ← List.reverse_inj, List.reverse_reverse] at parts
  have behind : back.reverse <:+: rest :=
    ⟨front.reverse ++ "->".toList, [], by rw [parts]; simp⟩
  rw [String.toList_ofList, String.toList_ofList]
  exact (trimChars_within _).trans
    (((dropRightWhile_leads _ _).isInfix.trans (trimChars_within _)).trans behind)

/-- The name, the hint and the default of a parameter are parts of its text. -/
theorem ofChars?_within {cs : List Char} {p : Parameter} (found : Parameter.ofChars? cs = some p) :
    (∀ name ∈ p.name, name.toList <:+: cs) ∧ (∀ hint ∈ p.typeHint, hint.toList <:+: cs) ∧
      ∀ default ∈ p.default, default.toList <:+: cs := by
  have bare : trimChars (cs.dropWhile (· == '*')) <:+: cs :=
    (trimChars_within _).trans (List.dropWhile_suffix _).isInfix
  unfold Parameter.ofChars? at found
  dsimp only at found
  generalize trimChars (cs.dropWhile (· == '*')) = text at bare found
  split at found
  next => cases found
  next =>
    cases found
    obtain ⟨before, behind⟩ := cutAt_within '=' text
    have left : (if (cutAt '=' text).2.isSome = true then trimChars (cutAt '=' text).1
        else (cutAt '=' text).1) <:+: text := by
      split
      next => exact (trimChars_within _).trans before
      next => exact before
    generalize (if (cutAt '=' text).2.isSome = true then trimChars (cutAt '=' text).1
        else (cutAt '=' text).1) = declared at left
    obtain ⟨name, hint⟩ := cutAt_within ':' declared
    refine ⟨?_, ?_, ?_⟩
    · rintro _ ⟨⟩
      rw [String.toList_ofList]
      split
      next => exact (trimChars_within _).trans (name.trans (left.trans bare))
      next => exact name.trans (left.trans bare)
    · intro given member
      obtain ⟨raw, atHint, rfl⟩ := Option.map_eq_some_iff.mp member
      rw [String.toList_ofList]
      exact (trimChars_within _).trans ((hint raw atHint).trans (left.trans bare))
    · intro given member
      obtain ⟨raw, atDefault, rfl⟩ := Option.map_eq_some_iff.mp member
      rw [String.toList_ofList]
      exact (unquote_within _).trans
        ((trimChars_within _).trans ((behind raw atDefault).trans bare))

/-! ### The texts of an outline -/

section

variable (P : String → Prop)

structure Class.Texts (c : Class) : Prop where
  name : ∀ n ∈ c.name, P n
  bases : ∀ bases ∈ c.inheritance, ∀ base ∈ bases, P base
  attributes : ∀ vs ∈ c.classVariables, ∀ v ∈ vs, ∀ n ∈ v.name, P n

structure Parameter.Texts (p : Parameter) : Prop where
  name : ∀ n ∈ p.name, P n
  hint : ∀ h ∈ p.typeHint, P h
  default : ∀ d ∈ p.default, P d

/-- The texts of a function, but for its documentation. -/
structure Function.Texts (f : Function) : Prop where
  name : ∀ n ∈ f.name, P n
  parameters : ∀ ps ∈ f.parameters, ∀ p ∈ ps, p.Texts P
  returns : ∀ r ∈ f.returns, P r
  owner : ∀ o ∈ f.owner, P o

structure Exception.Texts (e : Exception) : Prop where
  name : ∀ n ∈ e.name, P n
  localName : ∀ n ∈ e.localName, P n

def Entry.Texts : Entry → Prop
  | .ofClass c => c.Texts P
  | .ofFunction f => f.Texts P
  | .ofException e => e.Texts P

/-- The texts of an outline, but for documentation and contexts, have a property. -/
structure Texts (o : Outline) : Prop where
  classes : ∀ c ∈ o.classes, c.Texts P
  functions : ∀ f ∈ o.functions, f.Texts P
  exceptions : ∀ e ∈ o.exceptions, e.Texts P

end

section

variable {P : String → Prop} (stretch : ∀ {part whole : String},
  part.toList <:+: whole.toList → P whole → P part)

theorem mem_of_mem_bodyOf {indent : Nat} {lines : List ScannedLine} {l : ScannedLine}
    (member : l ∈ bodyOf indent lines) : l ∈ lines := by
  unfold bodyOf at member
  rw [List.mem_reverse] at member
  have inTaken := (List.dropWhile_sublist _).subset member
  rw [List.mem_reverse] at inTaken
  exact (List.takeWhile_sublist _).subset inTaken

include stretch

theorem piece_texts {l : ScannedLine} (here : P l.text) {cs : List Char}
    (within : cs <:+: l.trimmed) : P (String.ofList cs) := by
  refine stretch ?_ here
  rw [String.toList_ofList]
  exact within.trans (trimChars_within _)

theorem classVariablesOf_texts {body : List ScannedLine} (lines : ∀ l ∈ body, P l.text) :
    ∀ v ∈ classVariablesOf body, ∀ n ∈ v.name, P n := by
  intro v member n named
  unfold classVariablesOf at member
  split at member
  next => cases member
  next =>
    obtain ⟨l, inLevel, assigned⟩ := List.mem_filterMap.mp member
    have inBody := (List.mem_filter.mp inLevel).1
    unfold assigned? at assigned
    split at assigned
    next => cases assigned
    next target _ cut =>
      dsimp only at assigned
      split at assigned
      next =>
        cases assigned
        cases named
        have whole := (cutAt_within '=' l.trimmed).1
        rw [cut] at whole
        exact piece_texts stretch (lines l inBody)
          ((trimChars_within _).trans ((List.takeWhile_prefix _).isInfix.trans whole))
      next => cases assigned

theorem classEntry_texts (scopes : List Scope) (index : Nat) {l : ScannedLine}
    {body : List ScannedLine} (here : P l.text) (lines : ∀ m ∈ body, P m.text) :
    (classEntry scopes index l body).Texts P := by
  have piece : ∀ {cs : List Char}, cs <:+: l.trimmed.drop "class ".length →
      P (String.ofList cs) := fun within =>
    piece_texts stretch here (within.trans (List.drop_suffix _ _).isInfix)
  refine ⟨?_, ?_, ?_⟩
  · intro n named
    obtain rfl : headName _ = n := Option.some.inj named
    exact piece (List.takeWhile_prefix _).isInfix
  · intro bases given base member
    obtain rfl : List.map String.ofList _ = bases := Option.some.inj given
    obtain ⟨cs, inBases, rfl⟩ := List.mem_map.mp member
    cases between : betweenParens? ((l.trimmed.drop "class ".length).takeWhile (· != ':')) with
    | none => simp [between] at inBases
    | some inner =>
      simp only [between, Option.map_some, Option.getD_some] at inBases
      exact piece ((splitArguments_within inner cs inBases).trans
        ((betweenParens?_within between).trans (List.takeWhile_prefix _).isInfix))
  · intro vs given
    obtain rfl : classVariablesOf body = vs := Option.some.inj given
    exact classVariablesOf_texts stretch lines

theorem functionEntry_texts {scopes : List Scope} (index : Nat) {l : ScannedLine}
    (body : List ScannedLine) (owners : ∀ s ∈ scopes, P s.name) (here : P l.text) :
    (functionEntry scopes index l body).Texts P := by
  have piece : ∀ {part : String}, part.toList <:+: functionRest l → P part := fun within =>
    stretch (within.trans ((functionRest_suffix l).isInfix.trans (trimChars_within _))) here
  refine ⟨?_, ?_, ?_, ?_⟩
  · intro n named
    obtain rfl : headName (functionRest l) = n := Option.some.inj named
    refine piece ?_
    rw [headName, String.toList_ofList]
    exact (List.takeWhile_prefix _).isInfix
  · intro ps given p member
    obtain rfl : List.filterMap Parameter.ofChars? _ = ps := Option.some.inj given
    obtain ⟨cs, inArguments, found⟩ := List.mem_filterMap.mp member
    cases between : betweenParens? (functionRest l) with
    | none => simp [between] at inArguments
    | some inner =>
      simp only [between, Option.map_some, Option.getD_some] at inArguments
      have whole := (splitArguments_within inner cs inArguments).trans (betweenParens?_within between)
      obtain ⟨name, hint, default⟩ := ofChars?_within found
      exact ⟨fun n named => piece ((name n named).trans whole),
        fun h hinted => piece ((hint h hinted).trans whole),
        fun d given => piece ((default d given).trans whole)⟩
  · intro r returned
    simp only [functionEntry, Option.mem_def] at returned
    exact piece (returnsOf?_within returned)
  · intro o owned
    obtain rfl : ownerOf scopes = o := Option.some.inj owned
    unfold ownerOf
    split
    next => exact piece List.nil_infix
    next scope outer =>
      split
      next => exact owners scope List.mem_cons_self
      next => exact piece List.nil_infix

theorem raiseEntry_texts (index : Nat) {l : ScannedLine} (here : P l.text) {raised : List Char}
    (within : raised <:+: l.trimmed) : (raiseEntry index raised).Texts P := by
  refine ⟨?_, fun _ absent => by cases absent⟩
  intro n named
  obtain rfl : headDottedName raised = n := Option.some.inj named
  exact piece_texts stretch here ((List.takeWhile_prefix _).isInfix.trans within)

theorem handlerOf?_texts {index : Nat} {l : ScannedLine} (here : P l.text) {handled : List Char}
    (within : handled <:+: l.trimmed) {e : Exception} (handler : handlerOf? index handled = some e) :
    e.Texts P := by
  obtain ⟨⟨name, handle⟩, cut, rfl⟩ := Option.map_eq_some_iff.mp handler
  have parts := cutChars?_eq_some cut
  have whole : dropRightWhile (· == ':') handled <:+: l.trimmed :=
    (dropRightWhile_leads _ _).isInfix.trans within
  have before : name <:+: dropRightWhile (· == ':') handled :=
    ⟨[], " as ".toList ++ handle, by rw [parts]; simp⟩
  have behind : handle <:+: dropRightWhile (· == ':') handled :=
    ⟨name ++ " as ".toList, [], by rw [parts]; simp⟩
  refine ⟨?_, ?_⟩
  · rintro n ⟨⟩
    exact piece_texts stretch here ((trimChars_within _).trans (before.trans whole))
  · rintro n ⟨⟩
    exact piece_texts stretch here ((trimChars_within _).trans (behind.trans whole))

/-- What an entry reports is taken from its lines and the scopes around it, so what holds of every
part of a line holds of all its texts. -/
theorem entryOf_texts {scopes : List Scope} (index : Nat) {l : ScannedLine}
    {rest : List ScannedLine} (owners : ∀ s ∈ scopes, P s.name) (here : P l.text)
    (lines : ∀ m ∈ rest, P m.text) :
    (∀ entry ∈ (entryOf scopes index l rest).1, entry.Texts P) ∧
      ∀ scope ∈ (entryOf scopes index l rest).2, P scope.name := by
  have body : ∀ m ∈ bodyOf l.indent rest, P m.text := fun m member =>
    lines m (mem_of_mem_bodyOf member)
  unfold entryOf
  split
  next raised found =>
    refine ⟨?_, fun _ absent => by cases absent⟩
    intro entry member
    obtain rfl : Entry.ofException _ = entry := Option.some.inj member
    exact raiseEntry_texts stretch index here (afterMark?_suffix found).isInfix
  next =>
    split
    next handled found =>
      refine ⟨?_, fun _ absent => by cases absent⟩
      intro entry member
      obtain ⟨e, handler, rfl⟩ := Option.map_eq_some_iff.mp member
      exact handlerOf?_texts stretch here (afterMark?_suffix found).isInfix handler
    next =>
      split
      next => exact ⟨fun _ absent => (by cases absent), fun _ absent => (by cases absent)⟩
      next =>
        have texts := classEntry_texts stretch scopes index here body
        refine ⟨?_, ?_⟩
        · intro entry member
          obtain rfl : Entry.ofClass _ = entry := Option.some.inj member
          exact texts
        · intro scope opened
          obtain rfl : Scope.mk _ true l.indent = scope := Option.some.inj opened
          exact texts.name _ rfl
      next =>
        have texts := functionEntry_texts stretch index (bodyOf l.indent rest) owners here
        refine ⟨?_, ?_⟩
        · intro entry member
          obtain rfl : Entry.ofFunction _ = entry := Option.some.inj member
          exact texts
        · intro scope opened
          obtain rfl : Scope.mk _ false l.indent = scope := Option.some.inj opened
          exact texts.name _ rfl

theorem entriesFrom_texts {scopes : List Scope} {index : Nat} {lines : List ScannedLine}
    (owners : ∀ s ∈ scopes, P s.name) (texts : ∀ l ∈ lines, P l.text) :
    ∀ entry ∈ entriesFrom scopes index lines, entry.Texts P := by
  induction lines generalizing scopes index with
  | nil => exact fun _ absent => absurd absent List.not_mem_nil
  | cons l rest ih =>
    have behind : ∀ m ∈ rest, P m.text := fun m member => texts m (List.mem_cons_of_mem _ member)
    unfold entriesFrom
    split
    next =>
      have outer : ∀ s ∈ scopes.dropWhile (l.indent ≤ ·.indent), P s.name := fun s member =>
        owners s ((List.dropWhile_sublist _).subset member)
      obtain ⟨here, inner⟩ := entryOf_texts stretch index outer
        (texts l List.mem_cons_self) behind
      intro entry member
      rcases List.mem_append.mp member with first | later
      · exact here entry (Option.mem_toList.mp first)
      · refine ih ?_ behind entry later
        intro s inScopes
        rcases List.mem_append.mp inScopes with opened | around
        · exact inner s (Option.mem_toList.mp opened)
        · exact outer s around
    next => exact ih owners behind

/-- What holds of the lines of a source and of the stretches of all texts it holds of, holds of the
texts of the outline. -/
theorem read_texts {source : String} (lines : ∀ line ∈ (SourceText.ofText source).lines, P line) :
    (Outline.read source).Texts P := by
  cases valid : (Outline.read source).valid with
  | false =>
    have empty : Outline.read source = Outline.invalid := by
      unfold Outline.read at valid ⊢
      dsimp only at valid ⊢
      split at valid
      next => cases valid
      next bad => exact if_neg bad
    rw [empty]
    exact ⟨fun _ absent => (by cases absent), fun _ absent => (by cases absent),
      fun _ absent => (by cases absent)⟩
  | true =>
    have texts : ∀ entry ∈ entriesFrom [] 0 (ScannedLine.scan (SourceText.ofText source)).1,
        entry.Texts P := by
      refine entriesFrom_texts stretch (fun _ absent => absurd absent List.not_mem_nil) ?_
      intro l member
      exact lines _ (ScannedLine.text_of_mem_scanFrom member)
    rw [(ScannedLine.read_valid valid).2.2]
    refine ⟨?_, ?_, ?_⟩
    · intro c member
      obtain ⟨entry, inEntries, same⟩ := List.mem_filterMap.mp member
      cases entry <;> cases same
      exact texts _ inEntries
    · intro f member
      obtain ⟨entry, inEntries, same⟩ := List.mem_filterMap.mp member
      cases entry <;> cases same
      exact texts _ inEntries
    · intro e member
      obtain ⟨entry, inEntries, same⟩ := List.mem_filterMap.mp member
      cases entry <;> cases same
      exact texts _ inEntries

end

end Outline

end AutoDoc
