import AutoDoc.Proofs.Outline.Headers
import AutoDoc.Proofs.Text.Lines
import Mathlib.Data.List.Basic

/-!
# Documentation behind a header

Whether the reader finds documentation behind a header, as a recursion on the lines behind it
(`documentedIn`), and what can change without changing the answer:

* `documentedIn_eq` — the recursion says whether the documentation is not blank;
* `documentedIn_behind` — what stands behind a line of code that opens no string does not matter;
* `documentedIn_fold` — folding tabs does not matter, unless the next line of code is no longer
  deeper than the header.
-/

namespace AutoDoc

namespace ScannedLine

open Outline Text

def isTrailing (l : ScannedLine) : Bool := l.blank && !l.inString

/-- Some line belongs to the body of a definition with the given indentation. -/
def hasBody (indent : Nat) (lines : List ScannedLine) : Bool := !(bodyOf indent lines).isEmpty

/-- A line belongs to a body if it is in it and some line that counts follows, or it counts itself. -/
theorem bodyOf_cons (indent : Nat) (l : ScannedLine) (rest : List ScannedLine) :
    bodyOf indent (l :: rest) =
      if inBody indent l && (!l.isTrailing || hasBody indent rest) then l :: bodyOf indent rest
      else [] := by
  unfold hasBody bodyOf
  by_cases inside : inBody indent l = true
  · rw [List.takeWhile_cons_of_pos inside, List.reverse_cons, List.dropWhile_append]
    generalize List.dropWhile (fun l : ScannedLine => l.blank && !l.inString)
      (List.takeWhile (inBody indent) rest).reverse = found
    cases found with
    | nil => cases trailing : l.isTrailing <;> simp_all [isTrailing]
    | cons x xs => simp [inside]
  · rw [List.takeWhile_cons_of_neg inside]
    simp [inside]

theorem hasBody_cons (indent : Nat) (l : ScannedLine) (rest : List ScannedLine) :
    hasBody indent (l :: rest) = (inBody indent l && (!l.isTrailing || hasBody indent rest)) := by
  conv_lhs => rw [hasBody, bodyOf_cons]
  split
  next holds => simp [holds]
  next fails => simpa using fails

def quote? (l : ScannedLine) : Option TripleQuote :=
  TripleQuote.all.find? fun q => q.text.toList.isPrefixOf l.trimmed

/-- What follows the delimiter that a line starts with. -/
theorem quote?_text {l : ScannedLine} {q : TripleQuote} (found : l.quote? = some q) :
    l.trimmed = q.text.toList ++ l.trimmed.drop 3 := by
  have starts := List.find?_some found
  rw [isPrefixOf_eq_afterMark?] at starts
  obtain ⟨rest, cut⟩ := Option.isSome_iff_exists.mp starts
  rw [afterMark?_eq_some cut, q.text_toList]
  rfl

/-- There is text before the delimiter that closes a string: on this line, or on a later one if the
string goes on. -/
def speaks (q : TripleQuote) (cs : List Char) (later : Bool) : Bool :=
  match cutChars? q.text.toList cs with
  | some (before, _) => !before.all isWhite
  | none => !cs.all isWhite || later

/-- A line with text speaks whatever follows, or closes the string. -/
theorem speaks_of_dark {q : TripleQuote} {cs : List Char} (dark : cs.all isWhite = false)
    (a b : Bool) : speaks q cs a = speaks q cs b := by
  unfold speaks
  split
  next => rfl
  next => simp [dark]

theorem speaks_mono {q : TripleQuote} {cs : List Char} {a b : Bool}
    (text : speaks q cs a = true) (goesOn : a = true → b = true) : speaks q cs b = true := by
  unfold speaks at text ⊢
  split at text
  next => exact text
  next =>
    rcases (Bool.or_eq_true _ _).mp text with here | later
    · simp [here]
    · simp [goesOn later]

/-- The lines of a body have text before the delimiter that closes a string. -/
def textIn (indent : Nat) (q : TripleQuote) : List ScannedLine → Bool
  | [] => false
  | l :: rest => hasBody indent (l :: rest) && speaks q l.text.toList (textIn indent q rest)

/-- The lines behind a header with the given indentation start with documentation. -/
def documentedIn (indent : Nat) : List ScannedLine → Bool
  | [] => false
  | l :: rest =>
    if l.blank then documentedIn indent rest
    else inBody indent l &&
      match l.quote? with
      | none => false
      | some q => speaks q (l.trimmed.drop 3) (textIn indent q rest)

/-- There is text in a string if there is some before the mark that ends it. -/
theorem textIn_eq (indent : Nat) (q : TripleQuote) (lines : List ScannedLine) :
    textIn indent q lines =
      (untilMark q.text.toList (bodyOf indent lines)).any fun cs => !cs.all isWhite := by
  induction lines with
  | nil => rfl
  | cons l rest ih =>
    rw [textIn, hasBody_cons, bodyOf_cons, ih]
    split
    next inside =>
      rw [inside, Bool.true_and, speaks, untilMark]
      cases cutChars? q.text.toList l.text.toList <;> simp
    next outside =>
      rw [Bool.not_eq_true] at outside
      rw [outside]
      rfl

theorem isBlank_documentationFrom (q : TripleQuote) (first : List Char)
    (more : List ScannedLine) :
    isBlank (documentationFrom q first more) =
      !speaks q first ((untilMark q.text.toList more).any fun cs => !cs.all isWhite) := by
  unfold documentationFrom speaks
  cases cutChars? q.text.toList first with
  | some parts => simp [isBlank, all_isWhite_trimChars]
  | none =>
    dsimp only
    rw [isBlank_trim, isBlank_intercalate, List.map_cons, List.all_cons, List.all_map]
    simp only [isBlank, String.toList_ofList, all_isWhite_trimChars, Function.comp_def,
      Bool.not_or, Bool.not_not, List.not_any_eq_all_not]

/-- The recursion tells whether there is documentation that is not blank. -/
theorem documentedIn_eq (indent : Nat) (lines : List ScannedLine) :
    documentedIn indent lines = !isBlank (documentationOf (bodyOf indent lines)) := by
  induction lines with
  | nil => rfl
  | cons l rest ih =>
    rw [documentedIn, bodyOf_cons]
    split
    next blank =>
      have inside : inBody indent l = true := by simp [inBody, blank]
      rw [ih, inside, Bool.true_and]
      split
      next => simp only [documentationOf, List.dropWhile_cons, blank, if_true]
      next none =>
        have empty : bodyOf indent rest = [] := by
          simp only [Bool.or_eq_true, not_or, Bool.not_eq_true] at none
          simpa [hasBody] using none.2
        rw [empty]
    next dark =>
      have kept : (!l.isTrailing || hasBody indent rest) = true := by simp [isTrailing, dark]
      rw [kept, Bool.and_true]
      by_cases inside : inBody indent l = true
      · rw [if_pos inside, inside, Bool.true_and]
        cases quote : l.quote? with
        | none =>
          have nothing : documentationOf (l :: bodyOf indent rest) = "" := by
            unfold quote? at quote
            simp [documentationOf, dark, quote]
          rw [nothing]
          rfl
        | some q =>
          have found : documentationOf (l :: bodyOf indent rest) =
              documentationFrom q (l.trimmed.drop 3) (bodyOf indent rest) := by
            unfold quote? at quote
            simp [documentationOf, dark, quote]
          rw [found]
          simp only [isBlank_documentationFrom, Bool.not_not, textIn_eq]
      · rw [if_neg inside, (Bool.not_eq_true _).mp inside]
        rfl

/-! ### What does not matter -/

section

variable {indent : Nat} {q : TripleQuote} {x : ScannedLine}

theorem not_isTrailing_of_isCode (code : x.isCode = true) : x.isTrailing = false := by
  simp only [isCode, Bool.and_eq_true, Bool.not_eq_true'] at code
  simp [isTrailing, code.1]

theorem hasBody_behind (code : x.isCode = true) (before behind other : List ScannedLine) :
    hasBody indent (before ++ x :: behind) = hasBody indent (before ++ x :: other) := by
  induction before with
  | nil => simp [hasBody_cons, not_isTrailing_of_isCode code]
  | cons l before ih => rw [List.cons_append, List.cons_append, hasBody_cons, hasBody_cons, ih]

/-- A line of code outside the string ends the search for its text. -/
theorem textIn_behind (code : x.isCode = true) (dark : x.text.toList.all isWhite = false)
    (before behind other : List ScannedLine) :
    textIn indent q (before ++ x :: behind) = textIn indent q (before ++ x :: other) := by
  induction before with
  | nil =>
    rw [List.nil_append, List.nil_append, textIn, textIn, speaks_of_dark dark _ _,
      hasBody_cons, hasBody_cons, not_isTrailing_of_isCode code]
    rfl
  | cons l before ih =>
    have body : hasBody indent (l :: (before ++ x :: behind)) =
        hasBody indent (l :: (before ++ x :: other)) :=
      hasBody_behind code (l :: before) behind other
    rw [List.cons_append, List.cons_append]
    rw [textIn, textIn, ih, body]

/-- What stands behind a line of code that does not start with a delimiter does not decide whether
there is documentation. -/
theorem documentedIn_behind (code : x.isCode = true) (dark : x.text.toList.all isWhite = false)
    (plain : x.quote? = none) (before behind other : List ScannedLine) :
    documentedIn indent (before ++ x :: behind) =
      documentedIn indent (before ++ x :: other) := by
  induction before with
  | nil =>
    have notBlank : x.blank = false := by
      simp only [isCode, Bool.and_eq_true, Bool.not_eq_true'] at code
      exact code.1
    simp [documentedIn, notBlank, plain]
  | cons l before ih =>
    rw [List.cons_append, List.cons_append, documentedIn, documentedIn, ih]
    cases l.quote? with
    | none => rfl
    | some q =>
      dsimp only
      rw [textIn_behind code dark before behind other]

end

/-! ### Folding tabs -/

def NextDeeper (indent : Nat) (lines : List ScannedLine) : Prop :=
  ∀ next, lines.find? isCode = some next → indent < next.indent

theorem NextDeeper.inBody {indent : Nat} {l : ScannedLine} {rest : List ScannedLine}
    (deeper : NextDeeper indent (l :: rest)) : inBody indent l = true := by
  unfold Outline.inBody
  cases code : l.isCode with
  | true => simp [deeper l (List.find?_cons_of_pos code)]
  | false =>
    simp only [isCode, Bool.and_eq_false_iff, Bool.not_eq_false'] at code
    rcases code with blank | inString <;> simp [*]

theorem NextDeeper.tail {indent : Nat} {l : ScannedLine} {rest : List ScannedLine}
    (deeper : NextDeeper indent (l :: rest)) (noCode : l.isCode = false) :
    NextDeeper indent rest := by
  intro next found
  refine deeper next ?_
  rw [List.find?_cons_of_neg (by simp [noCode])]
  exact found

theorem dark_of_isCode {l : ScannedLine} {opened : Option TripleQuote} {line : String}
    (here : l = ofLine opened line) (code : l.isCode = true) :
    l.text.toList.all isWhite = false := by
  subst here
  by_contra white
  have empty := trimChars_eq_nil.mpr (by simpa using white)
  simp only [ofLine] at empty
  simp [isCode, ofLine, isBlankOrComment, empty] at code

/-- A line that starts with a delimiter and has no text behind it opens a string. -/
theorem alone_of_quote? {l : ScannedLine} {q : TripleQuote} (found : l.quote? = some q)
    (white : (l.trimmed.drop 3).all isWhite = true) : q.Alone l.text := by
  obtain ⟨before, after, split, leading, trailing⟩ := trimChars_split l.text.toList
  have text := quote?_text found
  unfold trimmed at text white
  refine ⟨before, (trimChars l.text.toList).drop 3 ++ after, ?_, leading, ?_⟩
  · rw [text] at split
    simpa using split
  · rw [List.all_append, white, trailing]
    rfl

section

variable (width : Nat) (opened : Option TripleQuote) (line : String)

theorem trimmed_fold : (ofLine opened (SourceText.foldLine width line)).trimmed =
    foldChars width (ofLine opened line).trimmed := by
  simp only [trimmed, ofLine, toList_foldLine, trimChars_fold]

theorem blank_fold : (ofLine opened (SourceText.foldLine width line)).blank =
    (ofLine opened line).blank := by
  simp only [ofLine, isBlankOrComment, toList_foldLine, trimChars_fold]
  cases text : trimChars line.toList with
  | nil => rfl
  | cons c cs =>
    have dark := isWhite_head_trimChars text
    have noTab : c ≠ '\t' := by
      rintro rfl
      rw [isWhite_tab] at dark
      cases dark
    rw [foldChars_cons noTab]

theorem isCode_fold : (ofLine opened (SourceText.foldLine width line)).isCode =
    (ofLine opened line).isCode := by
  unfold isCode
  rw [blank_fold]
  rfl

theorem isTrailing_fold : (ofLine opened (SourceText.foldLine width line)).isTrailing =
    (ofLine opened line).isTrailing := by
  unfold isTrailing
  rw [blank_fold]
  rfl

/-- What follows the delimiter at the head is folded like the rest. -/
theorem quote?_text_fold {q : TripleQuote} (found : (ofLine opened line).quote? = some q) :
    (ofLine opened (SourceText.foldLine width line)).trimmed.drop 3 =
      foldChars width ((ofLine opened line).trimmed.drop 3) := by
  have delimiter : foldChars width q.text.toList = q.text.toList := by
    rw [q.text_toList]
    cases q <;> rfl
  rw [trimmed_fold, quote?_text found, foldChars_append, delimiter, q.text_toList]
  rfl

end

section

variable {width inner outer : Nat} (positive : 0 < width)

include positive

theorem speaks_fold (q : TripleQuote) (cs : List Char) (later : Bool) :
    speaks q (foldChars width cs) later = speaks q cs later := by
  unfold speaks
  rw [q.cutChars?_fold positive]
  cases cutChars? q.text.toList cs with
  | none => simp only [Option.map_none, all_isWhite_fold]
  | some parts => simp only [Option.map_some, all_isWhite_fold]

theorem quote?_fold (opened : Option TripleQuote) (line : String) :
    (ofLine opened (SourceText.foldLine width line)).quote? = (ofLine opened line).quote? := by
  have starts : ∀ q : TripleQuote,
      q.text.toList.isPrefixOf (ofLine opened (SourceText.foldLine width line)).trimmed =
        q.text.toList.isPrefixOf (ofLine opened line).trimmed := by
    intro q
    rw [trimmed_fold, isPrefixOf_eq_afterMark?, isPrefixOf_eq_afterMark?,
      TripleQuote.afterMark?_fold positive q.text_dark]
    cases afterMark? q.text.toList (ofLine opened line).trimmed <;> rfl
  simp only [quote?, starts]

/-- A definition has a body after folding if it had one before. -/
theorem hasBody_fold (opened : Option TripleQuote) (lines : List String)
    (deeper : NextDeeper inner (scanFrom opened (lines.map (SourceText.foldLine width))).1)
    (held : hasBody outer (scanFrom opened lines).1 = true) :
    hasBody inner (scanFrom opened (lines.map (SourceText.foldLine width))).1 = true := by
  induction lines generalizing opened with
  | nil => exact held
  | cons line rest ih =>
    simp only [List.map_cons, scanFrom, TripleQuote.after_fold positive] at deeper held ⊢
    rw [hasBody_cons, Bool.and_eq_true] at held ⊢
    refine ⟨deeper.inBody, ?_⟩
    rw [isTrailing_fold, Bool.or_eq_true]
    cases trailing : (ofLine opened line).isTrailing with
    | false => exact Or.inl rfl
    | true =>
      have noCode : (ofLine opened (SourceText.foldLine width line)).isCode = false := by
        rw [← isTrailing_fold width] at trailing
        simp only [isTrailing, Bool.and_eq_true] at trailing
        simp [isCode, trailing.1]
      refine Or.inr (ih _ (deeper.tail noCode) ?_)
      simpa [trailing] using held.2

/-- The text of a string is found again as long as its lines stay in the body: a line of code
speaks for itself, and the lines before the first one are blank or in a string. -/
theorem textIn_fold (q : TripleQuote) (opened : Option TripleQuote) (lines : List String)
    (deeper : NextDeeper inner (scanFrom opened (lines.map (SourceText.foldLine width))).1)
    (text : textIn outer q (scanFrom opened lines).1 = true) :
    textIn inner q (scanFrom opened (lines.map (SourceText.foldLine width))).1 = true := by
  induction lines generalizing opened with
  | nil => exact text
  | cons line rest ih =>
    have body : hasBody outer (scanFrom opened (line :: rest)).1 = true → hasBody inner _ = true :=
      hasBody_fold positive opened (line :: rest) deeper
    simp only [List.map_cons, scanFrom, TripleQuote.after_fold positive] at deeper text body ⊢
    rw [textIn, Bool.and_eq_true] at text ⊢
    refine ⟨body text.1, ?_⟩
    have same : (ofLine opened (SourceText.foldLine width line)).text.toList =
        foldChars width (ofLine opened line).text.toList := toList_foldLine width line
    rw [same, speaks_fold positive]
    cases code : (ofLine opened line).isCode with
    | true =>
      rw [speaks_of_dark (dark_of_isCode rfl code) _ (textIn outer q _)]
      exact text.2
    | false =>
      rw [← isCode_fold width] at code
      exact speaks_mono text.2 (ih _ (deeper.tail code))

/-- The text of an open string is found again: all its lines are in the body. -/
theorem textIn_fold_open (q : TripleQuote) (lines : List String)
    (text : textIn outer q (scanFrom (some q) lines).1 = true) :
    textIn inner q (scanFrom (some q) (lines.map (SourceText.foldLine width))).1 = true := by
  induction lines with
  | nil => exact text
  | cons line rest ih =>
    simp only [List.map_cons, scanFrom, TripleQuote.after_fold positive] at text ⊢
    rw [textIn, Bool.and_eq_true] at text ⊢
    refine ⟨?_, ?_⟩
    · rw [hasBody_cons]
      simp [Outline.inBody, isTrailing, ofLine]
    · have same : (ofLine (some q) (SourceText.foldLine width line)).text.toList =
          foldChars width (ofLine (some q) line).text.toList := toList_foldLine width line
      rw [same, speaks_fold positive]
      cases cut : cutChars? q.text.toList line.toList with
      | some parts =>
        have closed : ∀ a b, speaks q line.toList a = speaks q line.toList b := by
          intro a b
          simp only [speaks, cut]
        exact (closed _ _).trans text.2
      | none =>
        have stays := q.after_some_of_even (q.isOdd_of_cut_none cut)
        rw [stays] at text ⊢
        exact speaks_mono text.2 ih

/-- Folding tabs keeps documentation if the next line of code stays deeper than the header. -/
theorem documentedIn_fold (opened : Option TripleQuote) (lines : List String)
    (deeper : NextDeeper inner (scanFrom opened (lines.map (SourceText.foldLine width))).1)
    (documented : documentedIn outer (scanFrom opened lines).1 = true) :
    documentedIn inner (scanFrom opened (lines.map (SourceText.foldLine width))).1 = true := by
  induction lines generalizing opened with
  | nil => exact documented
  | cons line rest ih =>
    simp only [List.map_cons, scanFrom, TripleQuote.after_fold positive] at deeper documented ⊢
    rw [documentedIn] at documented ⊢
    rw [blank_fold]
    split at documented
    next blank =>
      rw [if_pos blank]
      refine ih _ (deeper.tail ?_) documented
      rw [isCode_fold]
      simp [isCode, blank]
    next dark =>
      rw [if_neg dark, deeper.inBody, Bool.true_and, quote?_fold positive]
      rw [Bool.and_eq_true] at documented
      cases found : (ofLine opened line).quote? with
      | none => simp [found] at documented
      | some q =>
        have text := documented.2
        rw [found] at text
        dsimp only at text ⊢
        rw [quote?_text_fold width opened line found, speaks_fold positive]
        cases code : (ofLine opened line).isCode with
        | false =>
          rw [← isCode_fold width] at code
          exact speaks_mono text (textIn_fold positive q _ rest (deeper.tail code))
        | true =>
          cases white : ((ofLine opened line).trimmed.drop 3).all isWhite with
          | false =>
            rw [speaks_of_dark white _ (textIn outer q _)]
            exact text
          | true =>
            have closed : opened = none := by
              simp only [isCode, ofLine, Bool.and_eq_true, Bool.not_eq_true'] at code
              simpa using code.2
            have goesOn : TripleQuote.after opened line = some q := by
              rw [closed]
              exact (alone_of_quote? found white).after_none
            rw [goesOn] at text ⊢
            exact speaks_mono text (textIn_fold_open positive q rest)

end

end ScannedLine

end AutoDoc
