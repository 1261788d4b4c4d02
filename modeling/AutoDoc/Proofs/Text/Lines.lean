import AutoDoc.Proofs.Text.Folding
import Mathlib.Data.List.Basic

/-!
# Texts and their lines

A text is the join of its lines, and lines without newline characters are the lines of their join
(`ofText_toText`). A text is blank just if all its lines are, however it is cut into lines.
-/

namespace AutoDoc

namespace Text

theorem all_isWhite_trimChars (cs : List Char) :
    (trimChars cs).all isWhite = cs.all isWhite := by
  obtain ⟨before, after, split, leading, trailing⟩ := trimChars_split cs
  conv_rhs => rw [split]
  simp only [List.all_append, leading, trailing, Bool.true_and, Bool.and_true]

theorem isBlank_trim (s : String) : isBlank (trim s) = isBlank s := by
  simp [isBlank, trim, all_isWhite_trimChars]

theorem isBlank_intercalate (pieces : List String) :
    isBlank (String.intercalate "\n" pieces) = pieces.all isBlank := by
  induction pieces with
  | nil => rfl
  | cons piece rest ih =>
    cases rest with
    | nil => simp
    | cons next rest =>
      rw [String.intercalate_cons_cons, List.all_cons, ← ih]
      have newline : ("\n".toList).all isWhite = true := by decide
      simp only [isBlank, String.toList_append, List.all_append, newline, Bool.and_true]

end Text

namespace SourceText

open Text

theorem splitChars_ne_nil (cs : List Char) : splitChars cs ≠ [] := by
  cases cs with
  | nil => exact List.cons_ne_nil _ _
  | cons c cs =>
    unfold splitChars
    split
    next => exact List.cons_ne_nil _ _
    next => split <;> exact List.cons_ne_nil _ _

/-- Every text has a line, the empty text as well. -/
theorem lines_ofText_ne_nil (text : String) : (ofText text).lines ≠ [] := by
  simpa [ofText] using splitChars_ne_nil text.toList

theorem splitChars_of_noNewline {cs : List Char} (one : '\n' ∉ cs) : splitChars cs = [cs] := by
  induction cs with
  | nil => rfl
  | cons c cs ih =>
    simp only [List.mem_cons, not_or] at one
    rw [splitChars, if_neg (Ne.symm one.1), ih one.2]

theorem splitChars_append {cs : List Char} (one : '\n' ∉ cs) (rest : List Char) :
    splitChars (cs ++ '\n' :: rest) = cs :: splitChars rest := by
  induction cs with
  | nil => rfl
  | cons c cs ih =>
    simp only [List.mem_cons, not_or] at one
    rw [List.cons_append, splitChars, if_neg (Ne.symm one.1), ih one.2]

/-- No line holds the character that ends lines. -/
theorem splitChars_noNewline (cs : List Char) : ∀ piece ∈ splitChars cs, '\n' ∉ piece := by
  induction cs with
  | nil => simp [splitChars]
  | cons c cs ih =>
    unfold splitChars
    split
    next =>
      intro piece member
      rcases List.mem_cons.mp member with rfl | later
      · exact List.not_mem_nil
      · exact ih piece later
    next other =>
      split
      next =>
        intro piece member
        rw [List.mem_singleton.mp member, List.mem_singleton]
        exact Ne.symm other
      next line rest split =>
        rw [split] at ih
        intro piece member
        rcases List.mem_cons.mp member with rfl | later
        · rw [List.mem_cons, not_or]
          exact ⟨Ne.symm other, ih line List.mem_cons_self⟩
        · exact ih piece (List.mem_cons_of_mem _ later)

/-- The lines of a text hold no newline characters. -/
theorem ofText_noNewline (text : String) : ∀ line ∈ (ofText text).lines, '\n' ∉ line.toList := by
  intro line member
  obtain ⟨piece, inText, rfl⟩ := List.mem_map.mp member
  rw [String.toList_ofList]
  exact splitChars_noNewline _ piece inText

/-- Lines without newline characters are the lines of their join. -/
theorem ofText_toText {s : SourceText} (some : s.lines ≠ [])
    (one : ∀ line ∈ s.lines, '\n' ∉ line.toList) : ofText s.toText = s := by
  obtain ⟨lines⟩ := s
  simp only at some one
  simp only [ofText, toText, SourceText.mk.injEq]
  induction lines with
  | nil => exact absurd rfl some
  | cons line rest ih =>
    have here := one line List.mem_cons_self
    cases rest with
    | nil => simp [splitChars_of_noNewline here]
    | cons next rest =>
      have joined : (String.intercalate "\n" (line :: next :: rest)).toList =
          line.toList ++ '\n' :: (String.intercalate "\n" (next :: rest)).toList := by
        rw [String.intercalate_cons_cons, String.toList_append, String.toList_append,
          List.append_assoc]
        rfl
      rw [joined, splitChars_append here, List.map_cons, String.ofList_toList,
        ih (List.cons_ne_nil _ _) fun x member => one x (List.mem_cons_of_mem _ member)]

/-- Whether a text is blank does not hang on its division into lines. -/
theorem isBlank_ofText (text : String) : (ofText text).isBlank = Text.isBlank text := by
  have pieces : ∀ cs : List Char,
      ((splitChars cs).map String.ofList).all Text.isBlank = cs.all isWhite := by
    intro cs
    induction cs with
    | nil => rfl
    | cons c cs ih =>
      unfold splitChars
      split
      next newline =>
        subst newline
        rw [List.map_cons, List.all_cons, ih]
        rfl
      next =>
        split
        next none =>
          simp only [none, List.map_nil, List.all_nil] at ih
          simp [Text.isBlank, ← ih]
        next line rest split =>
          rw [split] at ih
          simp only [List.map_cons, List.all_cons, Text.isBlank, String.toList_ofList,
            Bool.and_assoc] at ih ⊢
          rw [ih]
  exact pieces text.toList

theorem foldLine_noNewline {width : Nat} {line : String} (one : '\n' ∉ line.toList) :
    '\n' ∉ (foldLine width line).toList := by
  rw [toList_foldLine]
  intro member
  obtain ⟨c, inLine, here⟩ := List.mem_flatMap.mp member
  split at here
  next => simp at here
  next =>
    rw [List.mem_singleton.mp here] at one
    exact one inLine

theorem isBlank_foldLine (width : Nat) (line : String) :
    Text.isBlank (foldLine width line) = Text.isBlank line := by
  unfold Text.isBlank
  rw [toList_foldLine, all_isWhite_fold]

/-- A text that is joined from folded lines is blank just if the lines were. -/
theorem isBlank_toText_fold (s : SourceText) (width : Nat) :
    (ofText (s.foldTabs width).toText).isBlank = s.isBlank := by
  have lines : (Text.isBlank ∘ foldLine width) = Text.isBlank := by
    funext line
    rw [Function.comp_apply, isBlank_foldLine]
  rw [isBlank_ofText, toText, isBlank_intercalate, foldTabs, List.all_map, lines, isBlank]

end SourceText

end AutoDoc
