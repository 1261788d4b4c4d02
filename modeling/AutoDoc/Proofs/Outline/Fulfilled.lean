import AutoDoc.Proofs.Outline.Documentation

/-!
# Headers and what an edit does to them

A header is fulfilled if documentation follows it, provided the next line of code is deeper, as it
is in every valid source. An edit behind one header that ends outside strings can only bear on that
header: those above keep their lines up to it, those below keep all of theirs.

* `FulfilledBut.splice` — the step: lines behind a header are exchanged for others;
* `scanFrom_block` — the lines of a block hold no header and end outside strings;
* `fulfilled_block` — a header with a block behind it is fulfilled.
-/

namespace AutoDoc.ScannedLine

open Outline Text

def isNamed (l : ScannedLine) : Bool := (Extraction.nonBlank? (some l.definedName)).isSome

/-- Documentation follows, unless the next line of code is no deeper. -/
def Fulfilled (l : ScannedLine) (rest : List ScannedLine) : Prop :=
  NextDeeper l.indent rest → documentedIn l.indent rest = true

/-- Every header with a name is fulfilled, save those at exempt indices. -/
def FulfilledBut (exempt : Nat → Prop) (lines : List ScannedLine) : Prop :=
  ∀ i l rest, lines.drop i = l :: rest → l.isHeader = true → l.isNamed = true →
    Fulfilled l rest ∨ exempt i

theorem definition_isDocumented (l : ScannedLine) (i : Nat) (rest : List ScannedLine) :
    (l.definition i rest).isDocumented = documentedIn l.indent rest := by
  rw [documentedIn_eq]
  rfl

def keywords : List (List Char) := ["class ".toList, "def ".toList, "async def ".toList]

theorem isSome_keyword? (l : ScannedLine) :
    l.keyword?.isSome = keywords.any fun mark => mark.isPrefixOf l.trimmed := by
  unfold keyword? keywords
  simp only [List.any_cons, List.any_nil, Bool.or_false]
  split
  next classDef => rw [classDef]; rfl
  next other =>
    rw [(Bool.not_eq_true _).mp other, Bool.false_or]
    split
    next functionDef => rw [functionDef]; rfl
    next none => rw [(Bool.not_eq_true _).mp none]; rfl

section

variable {l x : ScannedLine}

/-- A header starts with a letter. -/
theorem trimmed_of_isHeader (header : x.isHeader = true) :
    ∃ c cs, x.trimmed = c :: cs ∧ isWhite c = false ∧ ∀ q : TripleQuote, q.char ≠ c := by
  simp only [isHeader, Bool.and_eq_true] at header
  have keyword := header.2
  rw [isSome_keyword?, List.any_eq_true] at keyword
  obtain ⟨mark, member, starts⟩ := keyword
  obtain ⟨rest, text⟩ := List.isPrefixOf_iff_prefix.mp starts
  rw [← text]
  simp only [keywords, List.mem_cons, List.not_mem_nil, or_false] at member
  rcases member with rfl | rfl | rfl
  · refine ⟨'c', "lass ".toList ++ rest, rfl, by decide, ?_⟩
    rintro (_ | _) <;> decide
  · refine ⟨'d', "ef ".toList ++ rest, rfl, by decide, ?_⟩
    rintro (_ | _) <;> decide
  · refine ⟨'a', "sync def ".toList ++ rest, rfl, by decide, ?_⟩
    rintro (_ | _) <;> decide

theorem isCode_of_isHeader (header : x.isHeader = true) : x.isCode = true := by
  simp only [isHeader, Bool.and_eq_true] at header
  exact header.1

theorem quote?_of_isHeader (header : x.isHeader = true) : x.quote? = none := by
  obtain ⟨c, cs, text, _, distinct⟩ := trimmed_of_isHeader header
  unfold quote?
  rw [List.find?_eq_none]
  intro q _
  simp [text, q.text_toList, List.isPrefixOf, distinct q]

theorem dark_of_isHeader (header : x.isHeader = true) : x.text.toList.all isWhite = false := by
  obtain ⟨c, cs, text, _, _⟩ := trimmed_of_isHeader header
  by_contra white
  have empty : x.trimmed = [] := trimChars_eq_nil.mpr (by simpa using white)
  rw [text] at empty
  cases empty

/-- Whether documentation follows a header does not depend on the lines behind the next one. -/
theorem Fulfilled.behind (header : x.isHeader = true) {between behind : List ScannedLine}
    (fulfilled : Fulfilled l (between ++ x :: behind)) (other : List ScannedLine) :
    Fulfilled l (between ++ x :: other) := by
  have code := isCode_of_isHeader header
  intro deeper
  rw [documentedIn_behind code (dark_of_isHeader header) (quote?_of_isHeader header) between other
    behind]
  refine fulfilled ?_
  intro next found
  refine deeper next ?_
  rw [List.find?_append, List.find?_cons_of_pos code] at found ⊢
  exact found

/-- Lines behind a header are exchanged. Headers above stay as they are, headers below are those of
before, and the new lines bring none. -/
theorem FulfilledBut.splice {exempt left : Nat → Prop} {a s b r : List ScannedLine}
    (header : x.isHeader = true) (before : FulfilledBut exempt (a ++ x :: (s ++ r)))
    (here : Fulfilled x (b ++ r)) (plain : ∀ l ∈ b, l.isHeader = false)
    (above : ∀ i < a.length, exempt i → left i) (below : ∀ i, a.length < i → ¬ exempt i) :
    FulfilledBut left (a ++ x :: (b ++ r)) := by
  intro i l rest found headerL named
  rcases Nat.lt_trichotomy i a.length with isAbove | isHere | isBelow
  · rw [List.drop_append_of_le_length (Nat.le_of_lt isAbove)] at found
    cases split : a.drop i with
    | nil =>
      have := List.drop_eq_nil_iff.mp split
      omega
    | cons m between =>
      rw [split] at found
      cases found
      have old := before i l (between ++ x :: (s ++ r))
        (by rw [List.drop_append_of_le_length (Nat.le_of_lt isAbove), split]; rfl) headerL named
      rcases old with fulfilled | due
      · exact Or.inl (fulfilled.behind header _)
      · exact Or.inr (above i isAbove due)
  · rw [isHere, List.drop_left] at found
    cases found
    exact Or.inl here
  · obtain ⟨j, rfl⟩ := Nat.exists_eq_add_of_lt isBelow
    have behind : (b ++ r).drop j = l :: rest := by
      rw [Nat.add_assoc, List.drop_length_add_append, List.drop_succ_cons] at found
      exact found
    by_cases inBlock : j < b.length
    · rw [List.drop_append_of_le_length (Nat.le_of_lt inBlock)] at behind
      cases split : b.drop j with
      | nil =>
        have := List.drop_eq_nil_iff.mp split
        omega
      | cons m between =>
        rw [split] at behind
        cases behind
        have member : l ∈ b := List.mem_of_mem_drop (split ▸ List.mem_cons_self)
        rw [plain l member] at headerL
        cases headerL
    · obtain ⟨k, rfl⟩ := Nat.exists_eq_add_of_le (Nat.le_of_not_lt inBlock)
      rw [List.drop_length_add_append] at behind
      have old := before (a.length + (s.length + k) + 1) l rest
        (by rw [Nat.add_assoc, List.drop_length_add_append, List.drop_succ_cons,
          List.drop_length_add_append, behind])
        headerL named
      rcases old with fulfilled | due
      · exact Or.inl fulfilled
      · exact absurd due (below _ (by omega))

end

/-! ### Headers under folded tabs -/

section

variable {width : Nat}

theorem scanFrom_fold_state (positive : 0 < width) (opened : Option TripleQuote)
    (lines : List String) :
    (scanFrom opened (lines.map (SourceText.foldLine width))).2 = (scanFrom opened lines).2 := by
  induction lines generalizing opened with
  | nil => rfl
  | cons line rest ih =>
    simp only [List.map_cons, scanFrom, TripleQuote.after_fold positive, ih]

/-- A header stays a header. -/
theorem isHeader_fold {opened : Option TripleQuote} {line : String}
    (header : (ofLine opened line).isHeader = true) :
    (ofLine opened (SourceText.foldLine width line)).isHeader = true := by
  simp only [isHeader, Bool.and_eq_true] at header ⊢
  refine ⟨by rw [isCode_fold]; exact header.1, ?_⟩
  have keyword := header.2
  rw [isSome_keyword?, List.any_eq_true] at keyword ⊢
  obtain ⟨mark, member, starts⟩ := keyword
  have untabbed : ∀ mark ∈ keywords, foldChars width mark = mark := by
    intro mark member
    simp only [keywords, List.mem_cons, List.not_mem_nil, or_false] at member
    rcases member with rfl | rfl | rfl <;> rfl
  obtain ⟨rest, text⟩ := List.isPrefixOf_iff_prefix.mp starts
  refine ⟨mark, member, ?_⟩
  rw [trimmed_fold, ← text, foldChars_append, untabbed mark member]
  exact List.isPrefixOf_iff_prefix.mpr (List.prefix_append _ _)

/-- A line without tabs inside defines the same under folded tabs. -/
theorem trimmed_fold_untabbed {opened : Option TripleQuote} {line : String}
    (untabbed : '\t' ∉ trimChars line.toList) :
    (ofLine opened (SourceText.foldLine width line)).trimmed = (ofLine opened line).trimmed := by
  rw [trimmed_fold]
  exact foldChars_untabbed untabbed width

theorem isHeader_congr {l m : ScannedLine} (trimmed : l.trimmed = m.trimmed)
    (code : l.isCode = m.isCode) : l.isHeader = m.isHeader ∧ l.isNamed = m.isNamed := by
  simp only [isHeader, isNamed, definedName, functionRest, keyword?, trimmed, code, and_self]

end

/-! ### Blocks -/

/-- Lines without a closing delimiter stay in their string. -/
theorem scanFrom_inside {q : TripleQuote} {lines : List String}
    (even : ∀ line ∈ lines, q.isOdd line = false) :
    (scanFrom (some q) lines).2 = some q ∧
      ∀ l ∈ (scanFrom (some q) lines).1, l.inString = true := by
  induction lines with
  | nil => simp [scanFrom]
  | cons line rest ih =>
    obtain ⟨open', inside⟩ := ih fun x member => even x (List.mem_cons_of_mem _ member)
    simp only [scanFrom, q.after_some_of_even (even line List.mem_cons_self)]
    refine ⟨open', ?_⟩
    intro l member
    rcases List.mem_cons.mp member with rfl | later
    · rfl
    · exact inside l later

theorem not_isHeader_of_inString {l : ScannedLine} (inside : l.inString = true) :
    l.isHeader = false := by
  simp [isHeader, isCode, inside]

/-- The lines of a string in double quotes, with its delimiters on lines of their own. The first
line within has text. -/
structure IsBlock (opening closing first : String) (inner : List String) : Prop where
  opens : TripleQuote.double.Alone opening
  closes : TripleQuote.double.Alone closing
  even : ∀ line ∈ first :: inner, TripleQuote.double.isOdd line = false
  text : ∀ later, speaks .double first.toList later = true

section

variable {opening closing first : String} {inner : List String}

theorem ofLine_alone {q : TripleQuote} {line : String} (opened : Option TripleQuote)
    (alone : q.Alone line) :
    (ofLine opened line).trimmed = q.text.toList ∧ (ofLine opened line).blank = false ∧
      (ofLine opened line).keyword? = none ∧ (ofLine opened line).quote? = some q := by
  have trimmed : (ofLine opened line).trimmed = q.text.toList := alone.trimChars_eq
  refine ⟨trimmed, ?_, ?_, ?_⟩
  · simp only [ofLine, isBlankOrComment, alone.trimChars_eq]
    cases q <;> rfl
  · simp only [keyword?, trimmed]
    cases q <;> rfl
  · simp only [quote?, trimmed]
    cases q <;> rfl

/-- What a scan finds of a block and the empty line behind it. -/
theorem scanFrom_block_eq (block : IsBlock opening closing first inner) :
    scanFrom none (opening :: (first :: inner) ++ [closing, ""]) =
      (ofLine none opening :: ((scanFrom (some .double) (first :: inner)).1 ++
        [ofLine (some .double) closing, ofLine none ""]), none) := by
  rw [List.cons_append, scanFrom, block.opens.after_none, scanFrom_append,
    (scanFrom_inside block.even).1]
  simp only [scanFrom, block.closes.after_some]
  rfl

/-- A block and the empty line behind it end outside strings and hold no header. -/
theorem scanFrom_block (block : IsBlock opening closing first inner) :
    (scanFrom none (opening :: (first :: inner) ++ [closing, ""])).2 = none ∧
      ∀ l ∈ (scanFrom none (opening :: (first :: inner) ++ [closing, ""])).1,
        l.isHeader = false := by
  rw [scanFrom_block_eq block]
  refine ⟨rfl, ?_⟩
  intro l member
  rcases List.mem_cons.mp member with rfl | later
  · simp [isHeader, (ofLine_alone none block.opens).2.2.1]
  · rcases List.mem_append.mp later with inString | last
    · exact not_isHeader_of_inString ((scanFrom_inside block.even).2 l inString)
    · simp only [List.mem_cons, List.not_mem_nil, or_false] at last
      rcases last with rfl | rfl
      · exact not_isHeader_of_inString rfl
      · rfl

/-- A header with a block behind it is fulfilled. -/
theorem fulfilled_block (block : IsBlock opening closing first inner) (x : ScannedLine)
    (rest : List String) :
    Fulfilled x (scanFrom none (opening :: (first :: inner) ++ rest)).1 := by
  intro deeper
  simp only [List.cons_append, scanFrom, block.opens.after_none] at deeper ⊢
  obtain ⟨trimmed, dark, _, quote⟩ := ofLine_alone none block.opens
  rw [documentedIn, dark, deeper.inBody, quote, trimmed]
  simp only [Bool.false_eq_true, if_false, Bool.true_and]
  have text : textIn x.indent .double (ofLine (some .double) first ::
      (scanFrom (TripleQuote.after (some .double) first) (inner ++ rest)).1) = true := by
    rw [textIn, hasBody_cons]
    simp only [Bool.and_eq_true]
    refine ⟨?_, block.text _⟩
    simp [inBody, isTrailing, ofLine]
  rw [text]
  decide

end

end AutoDoc.ScannedLine
