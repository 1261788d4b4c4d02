import AutoDoc.Proofs.Outline.Documentation
import AutoDoc.Proofs.Splice.Shape
import Mathlib.Data.List.Infix

/-!
# Texts without multi-line strings

A text without triple quotes has none on any of its lines, so no line opens a string, no line of
code starts inside one, and no definition has documentation.

* `occursIn_iff` — a mark occurs just if it is a stretch of the characters;
* `Absent.line` — what is absent from a text is absent from its lines;
* `documentedIn_absent` — lines without triple quotes document nothing.
-/

namespace AutoDoc

namespace Text

theorem cutChars?_isSome (mark cs : List Char) : (cutChars? mark cs).isSome ↔ mark <:+: cs := by
  induction cs with
  | nil => simp [cutChars?]
  | cons c cs ih =>
    have here : (afterMark? mark (c :: cs)).isSome = true ↔ mark <+: c :: cs := by
      rw [← isPrefixOf_eq_afterMark?, List.isPrefixOf_iff_prefix]
    rw [List.infix_cons_iff, ← here, ← ih, cutChars?]
    cases afterMark? mark (c :: cs) <;> simp

/-- A mark occurs in a text just if it is a stretch of its characters. -/
theorem occursIn_iff (mark s : String) : occursIn mark s = true ↔ mark.toList <:+: s.toList :=
  cutChars?_isSome mark.toList s.toList

theorem trimChars_within (cs : List Char) : trimChars cs <:+: cs := by
  obtain ⟨before, after, split, _⟩ := trimChars_split cs
  exact ⟨before, after, split.symm⟩

theorem trim_within (s : String) : (trim s).toList <:+: s.toList := by
  rw [trim, String.toList_ofList]
  exact trimChars_within _

end Text

namespace SourceText

/-- A piece between newline characters is a stretch of the characters. -/
theorem splitChars_within (cs : List Char) : ∀ piece ∈ splitChars cs, piece <:+: cs := by
  have pieces : (∀ piece ∈ splitChars cs, piece <:+: cs) ∧
      ∀ first ∈ (splitChars cs).head?, first <+: cs := by
    induction cs with
    | nil => simp [splitChars]
    | cons c cs ih =>
      obtain ⟨within, leading⟩ := ih
      unfold splitChars
      split
      next =>
        refine ⟨?_, by simp⟩
        intro piece member
        rcases List.mem_cons.mp member with rfl | later
        · exact List.nil_infix
        · exact List.infix_cons (within piece later)
      next =>
        split
        next =>
          have alone : [c] <+: c :: cs := List.cons_prefix_cons.mpr ⟨rfl, List.nil_prefix⟩
          exact ⟨by simpa using alone.isInfix, by simp⟩
        next line rest split =>
          rw [split] at within leading
          have first : c :: line <+: c :: cs :=
            List.cons_prefix_cons.mpr ⟨rfl, leading line rfl⟩
          refine ⟨?_, by simpa using first⟩
          intro piece member
          rcases List.mem_cons.mp member with rfl | later
          · exact first.isInfix
          · exact List.infix_cons (within piece (List.mem_cons_of_mem _ later))
  exact pieces.1

/-- A line of a text is a stretch of its characters. -/
theorem line_within {text line : String} (member : line ∈ (ofText text).lines) :
    line.toList <:+: text.toList := by
  obtain ⟨piece, inText, rfl⟩ := List.mem_map.mp member
  rw [String.toList_ofList]
  exact splitChars_within _ piece inText

end SourceText

namespace TripleQuote

/-- Neither delimiter of multi-line strings occurs in the text. -/
def Absent (text : String) : Prop := ∀ q ∈ all, Text.occursIn q.text text = false

instance (text : String) : Decidable (Absent text) :=
  inferInstanceAs (Decidable (∀ q ∈ all, _))

theorem mem_all (q : TripleQuote) : q ∈ all := by
  cases q <;> decide

theorem Absent.of_within {text part : String} (absent : Absent text)
    (within : part.toList <:+: text.toList) : Absent part := by
  intro q member
  rw [← Bool.not_eq_true, Text.occursIn_iff]
  intro occurs
  have := absent q member
  rw [← Bool.not_eq_true, Text.occursIn_iff] at this
  exact this (occurs.trans within)

theorem Absent.line {text line : String} (absent : Absent text)
    (member : line ∈ (SourceText.ofText text).lines) : Absent line :=
  absent.of_within (SourceText.line_within member)

theorem Absent.trim {text : String} (absent : Absent text) : Absent (Text.trim text) := by
  refine absent.of_within ?_
  rw [Text.trim, String.toList_ofList]
  exact Text.trimChars_within _

theorem Absent.not_isPrefixOf {text : String} (absent : Absent text) (q : TripleQuote) :
    q.text.toList.isPrefixOf text.toList = false := by
  rw [← Bool.not_eq_true, List.isPrefixOf_iff_prefix]
  intro starts
  have := absent q q.mem_all
  rw [← Bool.not_eq_true, Text.occursIn_iff] at this
  exact this starts.isInfix

theorem Absent.isOdd {text : String} (absent : Absent text) (q : TripleQuote) :
    q.isOdd text = false := by
  apply q.isOdd_of_cut_none
  simpa [Text.occursIn] using absent q q.mem_all

/-- A line without triple quotes opens and closes no string. -/
theorem Absent.after {line : String} (absent : Absent line) (opened : Option TripleQuote) :
    TripleQuote.after opened line = opened := by
  simp [TripleQuote.after, all, toggle, absent.isOdd]

theorem Absent.not_opensString {line : String} (absent : Absent line) :
    Splice.opensString (Text.trim line) = false := by
  simp [Splice.opensString, absent.trim.isOdd]

end TripleQuote

namespace ScannedLine

open Outline TripleQuote

theorem scanFrom_absent {lines : List String} (absent : ∀ line ∈ lines, Absent line)
    (opened : Option TripleQuote) :
    scanFrom opened lines = (lines.map (ofLine opened), opened) := by
  induction lines with
  | nil => rfl
  | cons line rest ih =>
    rw [scanFrom, (absent line List.mem_cons_self).after,
      ih fun x member => absent x (List.mem_cons_of_mem _ member)]
    rfl

theorem quote?_absent {line : String} (absent : Absent line) (opened : Option TripleQuote) :
    (ofLine opened line).quote? = none := by
  unfold quote?
  rw [List.find?_eq_none]
  intro q _
  have := absent.trim.not_isPrefixOf q
  rw [Text.trim, String.toList_ofList] at this
  rw [Bool.not_eq_true]
  exact this

/-- Lines that start with no triple quote document nothing. -/
theorem documentedIn_absent (indent : Nat) {lines : List ScannedLine}
    (absent : ∀ l ∈ lines, l.quote? = none) : documentedIn indent lines = false := by
  induction lines with
  | nil => rfl
  | cons l rest ih =>
    have later := ih fun x member => absent x (List.mem_cons_of_mem _ member)
    simp [documentedIn, absent l List.mem_cons_self, later]

end ScannedLine

end AutoDoc
