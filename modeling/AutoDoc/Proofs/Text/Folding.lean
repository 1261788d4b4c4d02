import AutoDoc.SourceText
import AutoDoc.Text.TripleQuote
import Mathlib.Data.List.TakeWhile

/-!
# Delimiters under white space and folded tabs

Where a delimiter of strings stands in a line, and how often, does not depend on the white space
around it: folding tabs to at least one space keeps it (`cutChars?_fold`, `countFrom_fold`), and a
line that holds a delimiter and white space only opens a string of that kind (`Alone.after_none`).
-/

namespace AutoDoc

namespace Text

def foldChars (width : Nat) (cs : List Char) : List Char :=
  cs.flatMap fun c => if c = '\t' then List.replicate width ' ' else [c]

theorem toList_foldLine (width : Nat) (line : String) :
    (SourceText.foldLine width line).toList = foldChars width line.toList := by
  simp [SourceText.foldLine, foldChars]

@[simp] theorem foldChars_nil (width : Nat) : foldChars width [] = [] := rfl

@[simp] theorem foldChars_tab (width : Nat) (cs : List Char) :
    foldChars width ('\t' :: cs) = List.replicate width ' ' ++ foldChars width cs := rfl

theorem foldChars_cons {c : Char} (noTab : c ≠ '\t') (width : Nat) (cs : List Char) :
    foldChars width (c :: cs) = c :: foldChars width cs := by
  simp [foldChars, noTab]

theorem foldChars_append (width : Nat) (a b : List Char) :
    foldChars width (a ++ b) = foldChars width a ++ foldChars width b :=
  List.flatMap_append

/-- Without tabs nothing is folded. -/
theorem foldChars_untabbed {cs : List Char} (untabbed : '\t' ∉ cs) (width : Nat) :
    foldChars width cs = cs := by
  induction cs with
  | nil => rfl
  | cons c cs ih =>
    simp only [List.mem_cons, not_or] at untabbed
    rw [foldChars_cons (Ne.symm untabbed.1), ih untabbed.2]

/-- Folding takes each character by itself, so it does not matter from which end it is done. -/
theorem foldChars_reverse (width : Nat) (cs : List Char) :
    foldChars width cs.reverse = (foldChars width cs).reverse := by
  induction cs with
  | nil => rfl
  | cons c cs ih =>
    rw [List.reverse_cons, foldChars_append, ih]
    by_cases tab : c = '\t'
    · subst tab
      simp
    · simp [foldChars_cons tab]

theorem isWhite_space : isWhite ' ' = true := by decide

theorem isWhite_tab : isWhite '\t' = true := by decide

theorem all_isWhite_fold (width : Nat) (cs : List Char) :
    (foldChars width cs).all isWhite = cs.all isWhite := by
  induction cs with
  | nil => rfl
  | cons c cs ih =>
    by_cases tab : c = '\t'
    · subst tab
      rw [foldChars_tab, List.all_append, ih, List.all_cons, isWhite_tab, Bool.true_and]
      simp [List.all_replicate, isWhite_space]
    · rw [foldChars_cons tab, List.all_cons, List.all_cons, ih]

theorem dropWhile_isWhite_append {w : List Char} (white : w.all isWhite = true) (cs : List Char) :
    (w ++ cs).dropWhile isWhite = cs.dropWhile isWhite := by
  induction w with
  | nil => rfl
  | cons c w ih =>
    simp only [List.all_cons, Bool.and_eq_true] at white
    rw [List.cons_append, List.dropWhile_cons_of_pos white.1, ih white.2]

theorem dropWhile_fold (width : Nat) (cs : List Char) :
    (foldChars width cs).dropWhile isWhite = foldChars width (cs.dropWhile isWhite) := by
  induction cs with
  | nil => rfl
  | cons c cs ih =>
    by_cases tab : c = '\t'
    · subst tab
      rw [foldChars_tab, dropWhile_isWhite_append (by simp [isWhite_space]), ih,
        List.dropWhile_cons_of_pos isWhite_tab]
    · rw [foldChars_cons tab]
      by_cases white : isWhite c = true
      · rw [List.dropWhile_cons_of_pos white, List.dropWhile_cons_of_pos white, ih]
      · rw [List.dropWhile_cons_of_neg white, List.dropWhile_cons_of_neg white,
          foldChars_cons tab]

theorem trimChars_fold (width : Nat) (cs : List Char) :
    trimChars (foldChars width cs) = foldChars width (trimChars cs) := by
  simp only [trimChars, dropRightWhile]
  rw [dropWhile_fold, ← foldChars_reverse, dropWhile_fold, ← foldChars_reverse]

theorem trimChars_eq_nil {cs : List Char} : trimChars cs = [] ↔ cs.all isWhite = true := by
  simp only [trimChars, dropRightWhile, List.reverse_eq_nil_iff, List.dropWhile_eq_nil_iff,
    List.mem_reverse, List.all_eq_true]
  constructor
  · intro white c member
    by_contra dark
    rw [← List.takeWhile_append_dropWhile (p := isWhite) (l := cs)] at member
    rcases List.mem_append.mp member with leading | later
    · exact dark (List.mem_takeWhile_imp leading)
    · exact dark (white c later)
  · intro white c member
    exact white c ((List.dropWhile_sublist _).subset member)

/-- A trimmed text does not start with white space. -/
theorem isWhite_head_trimChars {cs rest : List Char} {c : Char} (text : trimChars cs = c :: rest) :
    isWhite c = false := by
  have leads : trimChars cs <+: cs.dropWhile isWhite := by
    unfold trimChars dropRightWhile
    rw [← List.reverse_suffix, List.reverse_reverse]
    exact List.dropWhile_suffix _
  obtain ⟨tail, same⟩ := leads
  have dark := List.head?_dropWhile_not isWhite cs
  rw [← same, text] at dark
  simpa using dark

/-- A text is its trimmed form with white space around it. -/
theorem trimChars_split (cs : List Char) :
    ∃ before after, cs = before ++ trimChars cs ++ after ∧ before.all isWhite = true ∧
      after.all isWhite = true := by
  refine ⟨cs.takeWhile isWhite, ((cs.dropWhile isWhite).reverse.takeWhile isWhite).reverse,
    ?_, ?_, ?_⟩
  · rw [List.append_assoc, trimChars, dropRightWhile, ← List.reverse_append,
      List.takeWhile_append_dropWhile, List.reverse_reverse, List.takeWhile_append_dropWhile]
  · exact List.all_eq_true.mpr fun c member => List.mem_takeWhile_imp member
  · rw [List.all_reverse]
    exact List.all_eq_true.mpr fun c member => List.mem_takeWhile_imp member

theorem afterMark?_eq_some {mark cs rest : List Char} (found : afterMark? mark cs = some rest) :
    cs = mark ++ rest := by
  induction mark generalizing cs with
  | nil => simpa [afterMark?] using found
  | cons m ms ih =>
    cases cs with
    | nil => simp [afterMark?] at found
    | cons c cs =>
      simp only [afterMark?] at found
      split at found
      next same => rw [ih found, List.cons_append, beq_iff_eq.mp same]
      next => cases found

theorem isPrefixOf_eq_afterMark? (mark cs : List Char) :
    mark.isPrefixOf cs = (afterMark? mark cs).isSome := by
  induction mark generalizing cs with
  | nil => rfl
  | cons m ms ih =>
    cases cs with
    | nil => rfl
    | cons c cs =>
      simp only [List.isPrefixOf, afterMark?, ih]
      split
      next same => simp [same]
      next differs => simp [differs]

end Text

namespace TripleQuote

open Text

def char : TripleQuote → Char
  | .double => '"'
  | .single => '\''

theorem text_toList (q : TripleQuote) : q.text.toList = [q.char, q.char, q.char] := by
  cases q <;> rfl

theorem isWhite_char (q : TripleQuote) : isWhite q.char = false := by
  cases q <;> decide

theorem char_ne_of_isWhite (q : TripleQuote) {c : Char} (white : isWhite c = true) :
    q.char ≠ c := by
  intro same
  rw [← same, isWhite_char] at white
  cases white

variable (q : TripleQuote)

theorem afterMark?_white {c : Char} (white : isWhite c = true) (cs : List Char) :
    afterMark? q.text.toList (c :: cs) = none := by
  rw [text_toList, afterMark?, if_neg (by simpa using q.char_ne_of_isWhite white)]

/-- A mark without white space is found in a folded text where it was before. -/
theorem afterMark?_fold {width : Nat} (positive : 0 < width) {mark : List Char}
    (dark : ∀ m ∈ mark, isWhite m = false) (cs : List Char) :
    afterMark? mark (foldChars width cs) = (afterMark? mark cs).map (foldChars width) := by
  induction mark generalizing cs with
  | nil => rfl
  | cons m ms ih =>
    have here := dark m List.mem_cons_self
    have ne : ∀ c, isWhite c = true → (m == c) = false := by
      intro c white
      rw [beq_eq_false_iff_ne]
      rintro rfl
      rw [here] at white
      cases white
    cases cs with
    | nil => rfl
    | cons c cs =>
      by_cases tab : c = '\t'
      · subst tab
        obtain ⟨n, rfl⟩ := Nat.exists_eq_succ_of_ne_zero (Nat.ne_of_gt positive)
        rw [foldChars_tab, List.replicate_succ, List.cons_append, afterMark?, afterMark?,
          ne _ isWhite_space, ne _ isWhite_tab]
        rfl
      · rw [foldChars_cons tab, afterMark?, afterMark?,
          ih (fun x member => dark x (List.mem_cons_of_mem _ member))]
        split <;> rfl

theorem text_dark : ∀ m ∈ q.text.toList, isWhite m = false := by
  intro m member
  simp only [text_toList, List.mem_cons, List.not_mem_nil, or_false, or_self] at member
  rw [member, isWhite_char]

theorem cutChars?_white {w : List Char} (white : w.all isWhite = true) (cs : List Char) :
    cutChars? q.text.toList (w ++ cs) =
      (cutChars? q.text.toList cs).map fun (before, after) => (w ++ before, after) := by
  induction w with
  | nil => simp
  | cons c w ih =>
    simp only [List.all_cons, Bool.and_eq_true] at white
    simp only [List.cons_append, cutChars?, afterMark?_white q white.1, ih white.2,
      Option.map_map]
    rfl

/-- Folding tabs keeps the place of a delimiter. -/
theorem cutChars?_fold {width : Nat} (positive : 0 < width) (cs : List Char) :
    cutChars? q.text.toList (foldChars width cs) =
      (cutChars? q.text.toList cs).map fun (before, after) =>
        (foldChars width before, foldChars width after) := by
  induction cs with
  | nil => simp [cutChars?, text_toList]
  | cons c cs ih =>
    by_cases tab : c = '\t'
    · subst tab
      rw [foldChars_tab, cutChars?_white q (by simp [isWhite_space]), ih, cutChars?,
        afterMark?_white q isWhite_tab, Option.map_map, Option.map_map]
      rfl
    · have marks := afterMark?_fold positive q.text_dark (c :: cs)
      rw [foldChars_cons tab] at marks ⊢
      rw [cutChars?, cutChars?, marks]
      cases afterMark? q.text.toList (c :: cs) with
      | some rest => rfl
      | none =>
        simp only [Option.map_none, ih, Option.map_map]
        congr 1
        funext pair
        simp [foldChars_cons tab]

/-! ### Counting -/

theorem countFrom_skip (mark : List Char) (skip : Nat) (cs : List Char) :
    countFrom mark skip cs = countFrom mark 0 (cs.drop skip) := by
  induction cs generalizing skip with
  | nil => simp [countFrom]
  | cons c cs ih =>
    cases skip with
    | zero => rfl
    | succ skip => rw [countFrom, ih, List.drop_succ_cons]

theorem countFrom_white {w : List Char} (white : w.all isWhite = true) (cs : List Char) :
    countFrom q.text.toList 0 (w ++ cs) = countFrom q.text.toList 0 cs := by
  induction w with
  | nil => rfl
  | cons c w ih =>
    simp only [List.all_cons, Bool.and_eq_true] at white
    rw [List.cons_append, countFrom, isPrefixOf_eq_afterMark?, afterMark?_white q white.1]
    exact ih white.2

theorem countFrom_mark (cs : List Char) :
    countFrom q.text.toList 0 (q.text.toList ++ cs) = countFrom q.text.toList 0 cs + 1 := by
  have here : [q.char, q.char, q.char].isPrefixOf (q.char :: q.char :: q.char :: cs) = true := by
    simp [List.isPrefixOf]
  simp only [text_toList, List.cons_append, List.nil_append]
  rw [countFrom, if_pos here, countFrom_skip]
  rfl

theorem countFrom_of_not_mem {cs : List Char} (absent : q.char ∉ cs) :
    countFrom q.text.toList 0 cs = 0 := by
  induction cs with
  | nil => rfl
  | cons c cs ih =>
    simp only [List.mem_cons, not_or] at absent
    rw [countFrom, if_neg, ih absent.2]
    simp [text_toList, List.isPrefixOf, absent.1]

/-- Nothing is counted just if a search finds nothing. -/
theorem countFrom_eq_zero_iff {cs : List Char} :
    countFrom q.text.toList 0 cs = 0 ↔ cutChars? q.text.toList cs = none := by
  induction cs with
  | nil => simp [countFrom, cutChars?, text_toList]
  | cons c cs ih =>
    rw [countFrom, cutChars?, isPrefixOf_eq_afterMark?]
    cases afterMark? q.text.toList (c :: cs) with
    | some rest => simp
    | none => simpa using ih

/-- Delimiters have no white space in them, so folding leaves their number. -/
theorem countFrom_fold {width : Nat} (positive : 0 < width) (cs : List Char) :
    countFrom q.text.toList 0 (foldChars width cs) = countFrom q.text.toList 0 cs := by
  -- A delimiter is passed over in one step, so the induction is on the length.
  induction length : cs.length using Nat.strongRecOn generalizing cs with
  | ind n ih =>
    subst length
    cases cs with
    | nil => rfl
    | cons c cs =>
      by_cases tab : c = '\t'
      · subst tab
        rw [foldChars_tab, countFrom_white q (by simp [isWhite_space]),
          ih cs.length (by simp) cs rfl, countFrom, isPrefixOf_eq_afterMark?,
          afterMark?_white q isWhite_tab]
        rfl
      · have marks := afterMark?_fold positive q.text_dark (c :: cs)
        cases found : afterMark? q.text.toList (c :: cs) with
        | some rest =>
          have split := afterMark?_eq_some found
          rw [found] at marks
          have shorter : rest.length < (c :: cs).length := by
            rw [split, text_toList]
            simp only [List.cons_append, List.nil_append, List.length_cons]
            omega
          rw [afterMark?_eq_some marks, split, countFrom_mark, countFrom_mark,
            ih rest.length shorter rest rfl]
        | none =>
          rw [found, foldChars_cons tab] at marks
          rw [foldChars_cons tab, countFrom, countFrom, isPrefixOf_eq_afterMark?,
            isPrefixOf_eq_afterMark?, marks, found]
          exact ih cs.length (by simp) cs rfl

theorem count_eq (line : String) :
    Text.count q.text line = countFrom q.text.toList 0 line.toList := by
  unfold Text.count
  rw [if_neg]
  simp [text_toList]

theorem isOdd_fold {width : Nat} (positive : 0 < width) (line : String) :
    q.isOdd (SourceText.foldLine width line) = q.isOdd line := by
  unfold isOdd
  rw [count_eq, count_eq, toList_foldLine, countFrom_fold q positive]

theorem isOdd_of_cut_none {line : String} (absent : cutChars? q.text.toList line.toList = none) :
    q.isOdd line = false := by
  unfold isOdd
  rw [count_eq, q.countFrom_eq_zero_iff.mpr absent]
  rfl

theorem after_fold {width : Nat} (positive : 0 < width) (opened : Option TripleQuote)
    (line : String) : after opened (SourceText.foldLine width line) = after opened line := by
  simp only [after, all, List.foldl_cons, List.foldl_nil, toggle, isOdd_fold _ positive]

/-- Without its own delimiter on a line a string stays open. -/
theorem after_some_of_even {line : String} (even : q.isOdd line = false) :
    after (some q) line = some q := by
  cases q <;> simp [after, all, toggle, even]

/-- A delimiter that stands alone on a line. -/
def Alone (line : String) : Prop :=
  ∃ before after, line.toList = before ++ q.text.toList ++ after ∧
    before.all isWhite = true ∧ after.all isWhite = true

variable {q}

theorem Alone.trimChars_eq {line : String} (alone : q.Alone line) :
    trimChars line.toList = q.text.toList := by
  obtain ⟨before, after, text, leading, trailing⟩ := alone
  have trailing' : after.reverse.all isWhite = true := by
    rw [List.all_reverse]
    exact trailing
  have dark := q.isWhite_char
  rw [text, trimChars, dropRightWhile, List.append_assoc, dropWhile_isWhite_append leading,
    q.text_toList]
  simp only [List.cons_append, List.nil_append, List.dropWhile_cons, dark, Bool.false_eq_true,
    if_false, List.reverse_cons, List.append_assoc]
  rw [dropWhile_isWhite_append trailing']
  simp [dark]

theorem Alone.count {line : String} (alone : q.Alone line) : Text.count q.text line = 1 := by
  obtain ⟨before, after, text, leading, trailing⟩ := alone
  have rest : countFrom q.text.toList 0 after = 0 := by
    rw [← List.append_nil after, countFrom_white q trailing]
    rfl
  rw [count_eq, text, List.append_assoc, countFrom_white q leading, countFrom_mark, rest]

theorem Alone.isOdd {line : String} (alone : q.Alone line) : q.isOdd line = true := by
  rw [TripleQuote.isOdd, alone.count]
  rfl

theorem Alone.isOdd_other {line : String} {other : TripleQuote} (alone : q.Alone line)
    (differs : other ≠ q) : other.isOdd line = false := by
  obtain ⟨before, after, text, leading, trailing⟩ := alone
  have absent : other.char ∉ line.toList := by
    have chars : other.char ≠ q.char := by
      cases other <;> cases q <;> first | exact absurd rfl differs | decide
    rw [text]
    simp only [List.mem_append, not_or, text_toList, List.mem_cons, List.not_mem_nil, or_false,
      or_self]
    refine ⟨⟨?_, chars⟩, ?_⟩
    · intro member
      exact other.char_ne_of_isWhite (List.all_eq_true.mp leading _ member) rfl
    · intro member
      exact other.char_ne_of_isWhite (List.all_eq_true.mp trailing _ member) rfl
  unfold TripleQuote.isOdd
  rw [count_eq, countFrom_of_not_mem other absent]
  rfl

/-- A delimiter that stands alone on a line opens a string. -/
theorem Alone.after_none {line : String} (alone : q.Alone line) : after none line = some q := by
  have odd := alone.isOdd
  cases q with
  | double => simp [after, all, toggle, odd]
  | single =>
    simp [after, all, toggle, odd, alone.isOdd_other (show double ≠ single by decide)]

/-- And it closes a string of its kind. -/
theorem Alone.after_some {line : String} (alone : q.Alone line) :
    after (some q) line = none := by
  have odd := alone.isOdd
  cases q with
  | double =>
    simp [after, all, toggle, odd, alone.isOdd_other (show single ≠ double by decide)]
  | single =>
    simp [after, all, toggle, odd, alone.isOdd_other (show double ≠ single by decide)]

end TripleQuote

end AutoDoc
