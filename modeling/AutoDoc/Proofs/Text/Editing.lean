import AutoDoc.Proofs.Text.Lines
import Mathlib.Data.List.Count

/-!
# Editing a source text

A source text stands for a text: joining its lines gives the text, and splitting the text gives the
lines back. What this rests on is that there is at least one line and that no line holds a newline
character (`Proper`). Every edit keeps that, at whatever indices, unless it takes all lines away or
brings lines with newline characters in (`Proper.edited`); so it holds along every history of edits
(`Proper.of_history`).

* `toText_ofText` — joining the lines of a text gives the text;
* `size_toText` — there is one line more than newline characters;
* `toText_append` — what lines added at the end do to the text.
-/

namespace AutoDoc.SourceText

/-- The lines of some text: at least one, and none with a newline character. -/
structure Proper (s : SourceText) : Prop where
  nonempty : s.lines ≠ []
  one : ∀ line ∈ s.lines, '\n' ∉ line.toList

theorem Proper.ofText (text : String) : (ofText text).Proper :=
  ⟨lines_ofText_ne_nil text, ofText_noNewline text⟩

/-- Lines joined again are the text. -/
theorem intercalate_splitChars (cs : List Char) : ['\n'].intercalate (splitChars cs) = cs := by
  induction cs with
  | nil => rfl
  | cons c cs ih =>
    obtain ⟨line, rest, split⟩ := List.exists_cons_of_ne_nil (splitChars_ne_nil cs)
    rw [splitChars]
    split
    next newline =>
      rw [List.intercalate_cons_of_ne_nil (splitChars_ne_nil cs), ih, newline]
      rfl
    next =>
      rw [split] at ih ⊢
      rw [List.intercalate_cons_cons_left, ih]

/-- Splitting a text into lines loses nothing. -/
theorem toText_ofText (text : String) : (ofText text).toText = text := by
  have lines : (splitChars text.toList).map (String.toList ∘ String.ofList) =
      splitChars text.toList := by
    rw [show String.toList ∘ String.ofList = id from funext fun _ => String.toList_ofList, List.map_id]
  rw [← String.toList_inj, toText, SourceText.ofText, String.toList_intercalate, List.map_map, lines]
  exact intercalate_splitChars text.toList

/-- There is one line more than newline characters between lines. -/
theorem Proper.size_toText {s : SourceText} (proper : s.Proper) :
    s.size = s.toText.toList.count '\n' + 1 := by
  obtain ⟨lines⟩ := s
  obtain ⟨nonempty, one⟩ := proper
  simp only [size, toText] at nonempty one ⊢
  induction lines with
  | nil => exact absurd rfl nonempty
  | cons line rest ih =>
    have here : line.toList.count '\n' = 0 :=
      List.count_eq_zero.mpr (one line List.mem_cons_self)
    cases rest with
    | nil => simp [here]
    | cons next rest =>
      have later := ih (List.cons_ne_nil _ _) fun x member => one x (List.mem_cons_of_mem _ member)
      rw [String.intercalate_cons_cons, String.toList_append, String.toList_append,
        List.count_append, List.count_append, here, List.length_cons, later]
      have newline : "\n".toList.count '\n' = 1 := by decide
      omega

/-! ### Edits -/

/-- An edit of a source text, with the lines that it brings in. -/
inductive Edit where
  | insert (index : Nat) (new : List String)
  | replace (start stop : Nat) (new : List String)
  | append (new : List String)
  | foldTabs (width : Nat)

namespace Edit

def new : Edit → List String
  | .insert _ new => new
  | .replace _ _ new => new
  | .append new => new
  | .foldTabs _ => []

def apply (s : SourceText) : Edit → Except Fault SourceText
  | .insert index new => .ok (s.insert index new)
  | .replace start stop new => .ok (s.replace start stop new)
  | .append new => .ok (s.append new)
  | .foldTabs width => s.foldTabs? width

/-- An edit removes all lines and brings none in. -/
def Empties (s : SourceText) : Edit → Prop
  | .replace start stop new => start = 0 ∧ s.size ≤ stop ∧ new = []
  | _ => False

/-- An edit keeps a text a text: it brings no newline characters in and leaves a line. -/
structure Admissible (s : SourceText) (edit : Edit) : Prop where
  one : ∀ line ∈ edit.new, '\n' ∉ line.toList
  leaves : ¬ edit.Empties s

/-- An edit can only fail where tabs are folded to more spaces than a text can hold. -/
theorem apply_defined (s : SourceText) (edit : Edit) :
    (∃ next, edit.apply s = .ok next) ∨ ∃ width, edit = .foldTabs width ∧ Word.limit63 ≤ width := by
  cases edit with
  | insert index new => exact Or.inl ⟨_, rfl⟩
  | replace start stop new => exact Or.inl ⟨_, rfl⟩
  | append new => exact Or.inl ⟨_, rfl⟩
  | foldTabs width =>
    by_cases fits : width < Word.limit63
    · exact Or.inl ⟨_, if_pos fits⟩
    · exact Or.inr ⟨width, rfl, Nat.le_of_not_lt fits⟩

end Edit

/-- Replacing lines by lines without newline characters leaves a text, if a line remains. -/
theorem Proper.replace {s : SourceText} (proper : s.Proper) {start stop : Nat} {new : List String}
    (one : ∀ line ∈ new, '\n' ∉ line.toList) (leaves : ¬ (start = 0 ∧ s.size ≤ stop ∧ new = [])) :
    (s.replace start stop new).Proper := by
  refine ⟨fun none => leaves ?_, fun line member => ?_⟩
  · simp only [SourceText.replace, List.append_eq_nil_iff, List.take_eq_nil_iff,
      List.drop_eq_nil_iff] at none
    obtain ⟨⟨front, nothing⟩, rest⟩ := none
    have lines : 0 < s.lines.length := List.length_pos_iff.mpr proper.nonempty
    have noFront : min start (min stop s.size) = 0 := front.resolve_right proper.nonempty
    unfold size at noFront rest ⊢
    exact ⟨by omega, by omega, nothing⟩
  · simp only [SourceText.replace, List.mem_append] at member
    rcases member with (front | within) | rest
    · exact proper.one line (List.mem_of_mem_take front)
    · exact one line within
    · exact proper.one line (List.mem_of_mem_drop rest)

theorem Proper.insert {s : SourceText} (proper : s.Proper) (index : Nat) {new : List String}
    (one : ∀ line ∈ new, '\n' ∉ line.toList) : (s.insert index new).Proper := by
  refine proper.replace one ?_
  rintro ⟨front, rest, _⟩
  have lines : 0 < s.size := List.length_pos_iff.mpr proper.nonempty
  omega

theorem Proper.foldTabs {s : SourceText} (proper : s.Proper) (width : Nat) :
    (s.foldTabs width).Proper := by
  refine ⟨fun none => proper.nonempty (List.map_eq_nil_iff.mp none), fun line member => ?_⟩
  obtain ⟨old, inText, rfl⟩ := List.mem_map.mp member
  exact foldLine_noNewline (proper.one old inText)

/-- An admissible edit of a text leaves a text. -/
theorem Proper.edited {s next : SourceText} (proper : s.Proper) {edit : Edit}
    (admissible : edit.Admissible s) (made : edit.apply s = .ok next) : next.Proper := by
  cases edit with
  | insert index new =>
    cases made
    exact proper.insert index admissible.one
  | replace start stop new =>
    cases made
    exact proper.replace admissible.one admissible.leaves
  | append new =>
    cases made
    exact proper.insert _ admissible.one
  | foldTabs width =>
    rw [Edit.apply, foldTabs?] at made
    split at made
    · cases made
      exact proper.foldTabs width
    · cases made

/-- A history of admissible edits of a text, and what they lead to. -/
inductive History (text : String) : List Edit → SourceText → Prop
  | start : History text [] (ofText text)
  | step {edits : List Edit} {s next : SourceText} {edit : Edit} (before : History text edits s)
      (admissible : edit.Admissible s) (made : edit.apply s = .ok next) :
      History text (edits ++ [edit]) next

theorem Proper.of_history {text : String} {edits : List Edit} {s : SourceText}
    (history : History text edits s) : s.Proper := by
  induction history with
  | start => exact Proper.ofText text
  | step _ admissible made ih => exact ih.edited admissible made

/-! ### Lines at the end -/

/-- A text ends with a newline character just if its last line is an empty one behind others. -/
theorem Proper.endsLine_iff {s : SourceText} (proper : s.Proper) :
    s.toText.toList.getLast? = some '\n' ↔ s.lines.getLast? = some "" ∧ 1 < s.size := by
  obtain ⟨front, last, lines⟩ := (List.eq_nil_or_concat' s.lines).resolve_left proper.nonempty
  have noNewline : '\n' ∉ last.toList := proper.one last (by simp [lines])
  have ends : s.lines.getLast? = some "" ↔ last = "" := by simp [lines]
  have text : s.toText.toList.getLast? =
      if last = "" then (if front = [] then none else some '\n') else last.toList.getLast? := by
    rw [toText, lines]
    by_cases alone : front = []
    · by_cases empty : last = "" <;> simp [alone, empty]
    · rw [String.intercalate_append_of_ne_nil alone (List.cons_ne_nil _ _)]
      by_cases empty : last = ""
      · simp [alone, empty]
      · rw [String.intercalate_singleton, String.toList_append, if_neg empty,
          List.getLast?_append_of_ne_nil _ (by simpa using empty)]
  have size : 1 < s.size ↔ front ≠ [] := by
    rw [SourceText.size, lines, List.length_append, List.length_singleton, ← List.length_pos_iff]
    omega
  rw [ends, size, text]
  by_cases empty : last = ""
  · by_cases alone : front = [] <;> simp [empty, alone]
  · simp only [empty, if_false, false_and, iff_false]
    exact fun newline => noNewline (List.mem_of_getLast? newline)

/-- Lines added at the end stand behind the text, and a final newline character stays final. -/
theorem Proper.toText_append {s : SourceText} (proper : s.Proper) {new : List String}
    (written : new ≠ []) : (s.append new).toText =
      if s.toText.toList.getLast? = some '\n' then s.toText ++ String.intercalate "\n" new ++ "\n"
      else s.toText ++ "\n" ++ String.intercalate "\n" new := by
  obtain ⟨front, last, lines⟩ := (List.eq_nil_or_concat' s.lines).resolve_left proper.nonempty
  have atEnd : s.lines.getLast? = some last := by simp [lines]
  rw [SourceText.append, SourceText.insert, contentEnd, atEnd]
  dsimp only
  split
  next ends =>
    obtain ⟨rfl, behind⟩ := ends
    have size : s.size = front.length + 1 := by simp [SourceText.size, lines]
    have more : front ≠ [] := by
      rw [← List.length_pos_iff]
      omega
    have stop : min (s.size - 1) s.size = front.length := by omega
    have start : min (s.size - 1) front.length = front.length := by omega
    have spliced : s.replace (s.size - 1) (s.size - 1) new = ⟨front ++ new ++ [""]⟩ := by
      rw [SourceText.replace, stop, start, lines, List.take_left, List.drop_left]
    rw [if_pos (proper.endsLine_iff.mpr ⟨atEnd, behind⟩), spliced, toText, toText, lines,
      String.intercalate_append_of_ne_nil (by simp [more]) (List.cons_ne_nil _ _),
      String.intercalate_append_of_ne_nil more written,
      String.intercalate_append_of_ne_nil more (List.cons_ne_nil _ _)]
    simp
  next other =>
    have noNewline : ¬ s.toText.toList.getLast? = some '\n' := by
      rw [proper.endsLine_iff, atEnd, Option.some.injEq]
      exact other
    have behind : s.replace s.size s.size new = ⟨s.lines ++ new⟩ := by
      simp [SourceText.replace, SourceText.size]
    rw [if_neg noNewline, behind, toText, toText,
      String.intercalate_append_of_ne_nil proper.nonempty written]

/-- A source text represents a text through all edits. Splitting a text into lines loses no byte of
it. Along every history of admissible edits, whatever their indices, joining and splitting gives the
source text itself, with one line more than newline characters; and no edit fails, unless it folds
tabs to more spaces than a text can hold. Lines added to a text stand behind it. -/
theorem edits_faithful (text : String) :
    (ofText text).toText = text ∧
    (∀ edits s, History text edits s → ofText s.toText = s ∧
      s.size = s.toText.toList.count '\n' + 1 ∧
      ∀ edit : Edit, (∃ next, edit.apply s = .ok next) ∨
        ∃ width, edit = .foldTabs width ∧ Word.limit63 ≤ width) ∧
    ∀ new : List String, new ≠ [] → (∀ line ∈ new, '\n' ∉ line.toList) →
      ((ofText text).append new).toText =
        if text.toList.getLast? = some '\n' then text ++ String.intercalate "\n" new ++ "\n"
        else text ++ "\n" ++ String.intercalate "\n" new := by
  refine ⟨toText_ofText text, fun edits s history => ?_, fun new written _ => ?_⟩
  · have proper := Proper.of_history history
    exact ⟨ofText_toText proper.nonempty proper.one, proper.size_toText, Edit.apply_defined s⟩
  · have appended := (Proper.ofText text).toText_append written
    rwa [toText_ofText] at appended

/-- Edits with indices beyond the text, of a text that ends with a newline character. -/
theorem edits_faithful_clamped :
    let text := "a\n\tb\n"
    let edits := [Edit.insert 9 ["c"], .replace 5 1 ["\td"], .foldTabs 2, .append ["e", ""]]
    let s : SourceText := ⟨["a", "  d", "  b", "", "c", "e", ""]⟩
    History text edits s ∧ (ofText text).toText = text ∧ ofText s.toText = s ∧
      s.size = s.toText.toList.count '\n' + 1 ∧
      ((ofText text).append ["e", ""]).toText = "a\n\tb\ne\n\n" := by
  intro text edits s
  have inserted : History text [.insert 9 ["c"]] ⟨["a", "\tb", "", "c"]⟩ :=
    .step .start ⟨by decide, id⟩ (by decide)
  have replaced : History text [.insert 9 ["c"], .replace 5 1 ["\td"]]
      ⟨["a", "\td", "\tb", "", "c"]⟩ :=
    .step inserted ⟨by decide, by simp [Edit.Empties]⟩ (by decide)
  have folded : History text [.insert 9 ["c"], .replace 5 1 ["\td"], .foldTabs 2]
      ⟨["a", "  d", "  b", "", "c"]⟩ :=
    .step replaced ⟨by decide, id⟩ (by decide)
  have history : History text edits s := .step folded ⟨by decide, id⟩ (by decide)
  obtain ⟨kept, reached, added⟩ := edits_faithful text
  obtain ⟨faithful, size, _⟩ := reached edits s history
  exact ⟨history, kept, faithful, size,
    (added ["e", ""] (by decide) (by decide)).trans (by decide)⟩

end AutoDoc.SourceText
