import AutoDoc.Proofs.Outline.Fulfilled
import AutoDoc.Proofs.Revision.Basic

/-!
# Blocks without a toolkit

Without a toolkit the block of an element depends on the element only (`revise_plain`). Its opening
line starts with a word of the description, so with its tabs folded it is a block behind which a
header counts as documented, provided its lines keep the string open (`isBlock_plain`).
-/

namespace AutoDoc.Docstring

open Text

/-- The opening line of an element about which no toolkit is asked. -/
def plainOpening (conventions : Conventions) (e : Element) : String :=
  if e.isClass then classPlaceholder
  else String.intercalate " " ((verbSentence? e.name).toList ++
    [(specialSentence? e.name).getD functionPlaceholder, scopeSentence conventions e])

def plainSections (conventions : Conventions) (e : Element) : List String :=
  (spaced (sections conventions e)).map (indented e.bodyDepth)

/-- The lines of a block between its delimiters. -/
def plainText (conventions : Conventions) (e : Element) : List String :=
  indented e.bodyDepth (plainOpening conventions e) :: plainSections conventions e

/-- The block of an element about which no toolkit is asked. -/
def plainBlock (conventions : Conventions) (e : Element) : List String :=
  indented e.bodyDepth delimiter :: plainText conventions e ++ [indented e.bodyDepth delimiter]

theorem opening_none {σ : Type} (conventions : Conventions) (e : Element) :
    opening conventions (none : Option (Toolkit σ)) e =
      (pure (plainOpening conventions e) : StateM σ String) := by
  unfold opening plainOpening
  split
  next => rfl
  next => cases specialSentence? e.name <;> rfl

theorem block_none {σ : Type} (conventions : Conventions) (e : Element) :
    block conventions (none : Option (Toolkit σ)) e =
      (pure (plainBlock conventions e) : StateM σ (List String)) := by
  unfold block
  rw [opening_none]
  rfl

/-- A text starts with the first letter of the descriptions. -/
def Describes (s : String) : Prop := ∃ cs, s = String.ofList ('T' :: cs)

theorem Describes.head {s : String} (describes : Describes s) : s.toList.head? = some 'T' := by
  obtain ⟨cs, rfl⟩ := describes
  rw [String.toList_ofList]
  rfl

theorem verbSentences_describe : ∀ pair ∈ verbSentences, Describes pair.2 := by
  unfold verbSentences
  repeat refine List.forall_mem_cons.mpr ⟨⟨_, rfl⟩, ?_⟩
  exact List.forall_mem_nil _

theorem specialSentences_describe : ∀ pair ∈ specialSentences, Describes pair.2 := by
  unfold specialSentences
  repeat refine List.forall_mem_cons.mpr ⟨⟨_, rfl⟩, ?_⟩
  exact List.forall_mem_nil _

theorem head_of_find? {table : List (String × String)} {p : String × String → Bool}
    {sentence : String} (describe : ∀ pair ∈ table, Describes pair.2)
    (found : (table.find? p).map (·.2) = some sentence) :
    sentence.toList.head? = some 'T' := by
  obtain ⟨pair, member, rfl⟩ := Option.map_eq_some_iff.mp found
  exact (describe pair (List.mem_of_find?_eq_some member)).head

theorem intercalate_head {separator first : String} {c : Char} (rest : List String)
    (head : first.toList.head? = some c) :
    (String.intercalate separator (first :: rest)).toList.head? = some c := by
  cases rest with
  | nil => simpa using head
  | cons next rest =>
    rw [String.intercalate_cons_cons, String.toList_append, String.toList_append,
      List.append_assoc, List.head?_append, head]
    rfl

/-- A description keeps its start behind the sentence of a verb. -/
theorem sentences_head (name : String) {description : String} (rest : List String)
    (head : description.toList.head? = some 'T') :
    (String.intercalate " " ((verbSentence? name).toList ++ description :: rest)).toList.head? =
      some 'T' := by
  cases verb : verbSentence? name with
  | none => exact intercalate_head _ head
  | some sentence => exact intercalate_head _ (head_of_find? verbSentences_describe verb)

/-- Every description starts with the same word. -/
theorem plainOpening_head (conventions : Conventions) (e : Element) :
    (plainOpening conventions e).toList.head? = some 'T' := by
  unfold plainOpening
  split
  next => exact Describes.head ⟨_, rfl⟩
  next =>
    apply sentences_head
    cases special : specialSentence? e.name with
    | none => exact Describes.head ⟨_, rfl⟩
    | some sentence => exact head_of_find? specialSentences_describe special

theorem toList_indented {line : String} (notEmpty : line ≠ "") (depth : Nat) :
    (indented depth line).toList = List.replicate depth '\t' ++ line.toList := by
  unfold indented
  rw [if_neg (by simpa using notEmpty)]
  simp

/-- A block has no newline within its lines if its text has none. -/
theorem plainBlock_noNewline {conventions : Conventions} {e : Element}
    (text : ∀ line ∈ plainText conventions e, '\n' ∉ line.toList) :
    ∀ line ∈ plainBlock conventions e, '\n' ∉ line.toList := by
  have ends : '\n' ∉ (indented e.bodyDepth delimiter).toList := by
    rw [toList_indented (by decide)]
    simp [delimiter]
  intro line member
  simp only [plainBlock, List.cons_append, List.mem_cons, List.mem_append, List.not_mem_nil,
    or_false] at member
  rcases member with rfl | inText | rfl
  · exact ends
  · exact text line inText
  · exact ends

/-- Tabs in front of a line are white space, folded or not. -/
theorem all_isWhite_tabs (width depth : Nat) :
    (foldChars width (List.replicate depth '\t')).all isWhite = true := by
  rw [all_isWhite_fold]
  simp [isWhite_tab]

theorem alone_delimiter (width depth : Nat) :
    TripleQuote.double.Alone (SourceText.foldLine width (indented depth delimiter)) := by
  refine ⟨foldChars width (List.replicate depth '\t'), [], ?_, all_isWhite_tabs width depth, rfl⟩
  rw [toList_foldLine, toList_indented (by decide), foldChars_append, List.append_nil]
  rfl

/-- A line with a character that is neither white nor of the delimiter in front has text. -/
theorem speaks_of_head {q : TripleQuote} {before cs : List Char} {c : Char}
    (leading : before.all isWhite = true) (dark : isWhite c = false) (distinct : q.char ≠ c)
    (later : Bool) : ScannedLine.speaks q (before ++ c :: cs) later = true := by
  have here : afterMark? q.text.toList (c :: cs) = none := by
    rw [q.text_toList, afterMark?, if_neg (by simpa using distinct)]
  unfold ScannedLine.speaks
  rw [q.cutChars?_white leading, cutChars?, here]
  cases cutChars? q.text.toList cs with
  | none => simp [dark]
  | some parts => simp [dark]

/-- With its tabs folded a block is one that the reader takes as documentation, if no line between
its delimiters holds an odd number of them. -/
theorem isBlock_plain {conventions : Conventions} {e : Element} {width : Nat}
    (positive : 0 < width)
    (even : ∀ line ∈ plainText conventions e, TripleQuote.double.isOdd line = false) :
    ScannedLine.IsBlock (SourceText.foldLine width (indented e.bodyDepth delimiter))
      (SourceText.foldLine width (indented e.bodyDepth delimiter))
      (SourceText.foldLine width (indented e.bodyDepth (plainOpening conventions e)))
      ((plainSections conventions e).map (SourceText.foldLine width)) where
  opens := alone_delimiter width e.bodyDepth
  closes := alone_delimiter width e.bodyDepth
  even := by
    intro line member
    rw [← List.map_cons] at member
    obtain ⟨plain, inText, rfl⟩ := List.mem_map.mp member
    rw [TripleQuote.isOdd_fold _ positive]
    exact even plain inText
  text := by
    intro later
    have head := plainOpening_head conventions e
    cases opening : (plainOpening conventions e).toList with
    | nil => simp [opening] at head
    | cons c cs =>
      obtain rfl : c = 'T' := by simpa [opening] using head
      have notEmpty : plainOpening conventions e ≠ "" := by
        intro empty
        rw [empty] at opening
        cases opening
      rw [toList_foldLine, toList_indented notEmpty, foldChars_append, opening,
        foldChars_cons (by decide)]
      exact speaks_of_head (all_isWhite_tabs width e.bodyDepth) (by decide) (by decide) later

end AutoDoc.Docstring

namespace AutoDoc.SourceText

/-- A revision without a toolkit splices in the blocks of the elements. -/
theorem revise_plain {σ : Type} (conventions : Conventions) (text : SourceText)
    (elements : List Element) (state : σ) :
    ((text.revise conventions (none : Option (Toolkit σ)) elements).run state).1 =
      text.spliceAll (elements.map fun e => (e, Docstring.plainBlock conventions e)) := by
  induction elements generalizing text state with
  | nil => rfl
  | cons e rest ih =>
    unfold revise
    rw [Docstring.block_none, List.map_cons, spliceAll_cons, ← ih _ state]
    rfl

end AutoDoc.SourceText
