import AutoDoc.Proofs.Splice.Shape
import AutoDoc.Proofs.Text.Trimmed
import Mathlib.Data.Nat.Find
import Mathlib.Order.Bounds.Basic

/-!
# Strings passed over, and the exact edit of a splice

Reading down from a signature, a line opens a string or closes the one that is open. What is open
behind lines is a fold over them (`openBehind`), and the body starts at the least line that has text
and lies outside of strings (`findBody_eq_some_iff`). With this the edit of a splice is known to the
line (`splice_edit`): which line is the signature, where the block goes, which lines it replaces and
what is reported.
-/

namespace AutoDoc.Splice

/-- Whether a string is open behind a line; `inString` says whether one is open in front of it. -/
def track (inString : Bool) (line : String) : Bool :=
  if inString then !closesString (Text.trim line) else opensString (Text.trim line)

/-- Whether a string is open behind lines. -/
def openBehind (inString : Bool) (lines : List String) : Bool := lines.foldl track inString

@[simp] theorem openBehind_nil (inString : Bool) : openBehind inString [] = inString := rfl

@[simp] theorem openBehind_cons (inString : Bool) (line : String) (rest : List String) :
    openBehind inString (line :: rest) = openBehind (track inString line) rest := rfl

theorem openBehind_append (inString : Bool) (front rest : List String) :
    openBehind inString (front ++ rest) = openBehind (openBehind inString front) rest :=
  List.foldl_append

/-- A line with text that lies outside strings: none is open in front of it, and it opens none. -/
def IsText (inString : Bool) (line : String) : Prop :=
  Text.isBlank line = false ∧ inString = false ∧ track inString line = false

instance (inString : Bool) (line : String) : Decidable (IsText inString line) :=
  inferInstanceAs (Decidable (_ ∧ _))

/-- The search for the body stops at a line of text and goes on behind any other. -/
theorem bodyOffset_cons (inString : Bool) (line : String) (rest : List String) :
    bodyOffset inString (line :: rest) =
      if IsText inString line then some 0
      else (bodyOffset (track inString line) rest).map (· + 1) := by
  cases inString with
  | true =>
    cases closes : closesString (Text.trim line) <;> simp [bodyOffset, IsText, track, closes]
  | false =>
    cases opens : opensString (Text.trim line) with
    | true => simp [bodyOffset, IsText, track, opens]
    | false =>
      cases blank : Text.isBlank line <;>
        simp [bodyOffset, IsText, track, opens, Text.isEmpty_trim, blank]

/-- The line at an index is a line of text, read in the state that the lines in front leave. -/
def TextAt (inString : Bool) (lines : List String) (k : Nat) : Prop :=
  ∃ line, lines[k]? = some line ∧ IsText (openBehind inString (lines.take k)) line

theorem textAt_zero {inString : Bool} {line : String} {rest : List String} :
    TextAt inString (line :: rest) 0 ↔ IsText inString line := by
  simp [TextAt]

theorem textAt_succ {inString : Bool} {line : String} {rest : List String} {k : Nat} :
    TextAt inString (line :: rest) (k + 1) ↔ TextAt (track inString line) rest k := by
  simp [TextAt]

/-- The body found is the first line of text. -/
theorem bodyOffset_eq_some_iff {inString : Bool} {lines : List String} {k : Nat} :
    bodyOffset inString lines = some k ↔ IsLeast {i | TextAt inString lines i} k := by
  induction lines generalizing inString k with
  | nil =>
    simp [bodyOffset, IsLeast, TextAt]
  | cons line rest ih =>
    rw [bodyOffset_cons]
    split
    next text =>
      have first : IsLeast {i | TextAt inString (line :: rest) i} 0 :=
        ⟨textAt_zero.mpr text, fun i _ => Nat.zero_le i⟩
      rw [Option.some.injEq]
      exact ⟨fun same => same ▸ first, fun least => first.unique least⟩
    next passed =>
      cases k with
      | zero =>
        simp only [Option.map_eq_some_iff, Nat.add_eq_zero_iff, Nat.one_ne_zero, and_false,
          exists_false, false_iff]
        exact fun least => passed (textAt_zero.mp least.1)
      | succ k =>
        simp only [Option.map_eq_some_iff, Nat.add_right_cancel_iff, exists_eq_right, ih]
        constructor
        · rintro ⟨here, below⟩
          refine ⟨textAt_succ.mpr here, ?_⟩
          rintro (_ | i) at_i
          · exact absurd (textAt_zero.mp at_i) passed
          · exact Nat.succ_le_succ (below (textAt_succ.mp at_i))
        · rintro ⟨here, below⟩
          refine ⟨textAt_succ.mp here, ?_⟩
          intro i at_i
          exact Nat.le_of_succ_le_succ (below (textAt_succ.mpr at_i))

/-- The line at an index may start the body behind a signature: it is a line of text, read from the
signature on. -/
def IsBody (s : SourceText) (sig k : Nat) : Prop :=
  sig < k ∧ TextAt false (s.lines.drop (sig + 1)) (k - (sig + 1))

/-- The body is the first line behind the signature that is one of text. -/
theorem findBody_eq_some_iff {s : SourceText} {sig j : Nat} :
    findBody s sig = some j ↔ IsLeast {k | IsBody s sig k} j := by
  unfold findBody
  simp only [Option.map_eq_some_iff, bodyOffset_eq_some_iff]
  constructor
  · rintro ⟨n, ⟨here, below⟩, rfl⟩
    refine ⟨⟨by omega, ?_⟩, ?_⟩
    · rw [Nat.add_sub_cancel_left]
      exact here
    · rintro k ⟨behind, text⟩
      have := below text
      omega
  · rintro ⟨⟨behind, text⟩, below⟩
    refine ⟨j - (sig + 1), ⟨text, ?_⟩, by omega⟩
    intro n at_n
    have := below (a := sig + 1 + n) ⟨by omega, by rwa [Nat.add_sub_cancel_left]⟩
    omega

/-- There is no body just if no line behind the signature is one of text. -/
theorem findBody_eq_none_iff {s : SourceText} {sig : Nat} :
    findBody s sig = none ↔ ∀ k, ¬ IsBody s sig k := by
  constructor
  · intro none k body
    classical
    have least : IsLeast {k | IsBody s sig k} (Nat.find ⟨k, body⟩) :=
      ⟨Nat.find_spec ⟨k, body⟩, fun _ member => Nat.find_min' ⟨k, body⟩ member⟩
    rw [findBody_eq_some_iff.mpr least] at none
    cases none
  · intro absent
    cases found : findBody s sig with
    | none => rfl
    | some j => exact absurd (findBody_eq_some_iff.mp found).1 (absent j)

/-- A line that a splice may drop is blank or made of quote characters and white space around. -/
theorem isDisposable_iff {line : String} : isDisposable line = true ↔
    Text.isBlank line = true ∨ ∀ c ∈ (Text.trim line).toList, c = '"' ∨ c = '\'' := by
  have quotes : isDisposable line = true ↔ ∀ c ∈ (Text.trim line).toList, c = '"' ∨ c = '\'' := by
    simp [isDisposable, isQuote]
  rw [quotes, or_iff_right_of_imp]
  intro blank
  rw [← Text.isEmpty_trim, String.isEmpty_iff] at blank
  simp [blank]

/-- The signature is the least line of its range that ends with a colon. -/
theorem isLeast_of_findSignature {s : SourceText} {start stop sig : Nat}
    (found : findSignature s start stop = some sig) :
    IsLeast {i | start ≤ i ∧ i < stop ∧ colonAt s i = true} sig := by
  obtain ⟨low, high, colon, first⟩ := findSignature_eq_some_iff.mp found
  refine ⟨⟨low, high, colon⟩, ?_⟩
  rintro i ⟨above, below, ends⟩
  by_contra before
  rw [first i above (Nat.lt_of_not_le before)] at ends
  cases ends

end AutoDoc.Splice

namespace AutoDoc.SourceText

open Splice

/-- A splice is one edit, known to the line. Without a line in the range that ends with a colon
nothing happens. Else the least of them is the signature. Behind it the lines up to `j` are passed
over: up to the least line of text outside of strings, or up to the end of the content if there is
none. If all of them are blank or made of quotes, the block and an empty line take their place; else
the block and an empty line go behind them. -/
theorem splice_edit (s : SourceText) (startLine endLine : Nat) (block : List String) :
    let signatures : Set Nat :=
      {i | max startLine 1 - 1 ≤ i ∧ i < min endLine s.size ∧ colonAt s i = true}
    let passes (sig j : Nat) : Prop := ∀ line ∈ (s.lines.take j).drop (sig + 1),
      Text.isBlank line = true ∨ ∀ c ∈ (Text.trim line).toList, c = '"' ∨ c = '\''
    (signatures = ∅ ∧ s.splice startLine endLine block = (.signatureNotFound, s)) ∨
    ∃ sig i j outcome, IsLeast signatures sig ∧ sig < i ∧ i ≤ j ∧ j ≤ s.size ∧
      (passes sig j ∧ i = sig + 1 ∨ ¬ passes sig j ∧ i = j) ∧
      (IsLeast {k | IsBody s sig k} j ∧ outcome = .inserted i ∨
        {k | IsBody s sig k} = ∅ ∧ j = s.contentEnd ∧ outcome = .appended) ∧
      s.splice startLine endLine block =
        (outcome, ⟨s.lines.take i ++ block ++ [""] ++ s.lines.drop j⟩) := by
  intro signatures passes
  have range : signatures = {i | startLine - 1 ≤ i ∧ i < endLine ∧ colonAt s i = true} := by
    ext i
    constructor
    · rintro ⟨low, high, colon⟩
      exact ⟨by omega, by omega, colon⟩
    · rintro ⟨low, high, colon⟩
      have := colonAt_lt colon
      exact ⟨by omega, by omega, colon⟩
  rw [range]
  cases found : findSignature s (startLine - 1) endLine with
  | none =>
    refine Or.inl ⟨?_, splice_of_none found⟩
    rw [Set.eq_empty_iff_forall_notMem]
    rintro i ⟨low, high, colon⟩
    rw [findSignature_eq_none_iff.mp found i low high] at colon
    cases colon
  | some sig =>
    have least := isLeast_of_findSignature found
    have colon : colonAt s sig = true := least.1.2.2
    refine Or.inr ⟨sig, place s sig, skippedEnd s sig, report s sig, least, lt_place s sig,
      place_le_skippedEnd s sig, skippedEnd_le (colonAt_lt colon), ?_, ?_, ?_⟩
    · have disposable :
          (skipped s sig).all isDisposable = true ↔ passes sig (skippedEnd s sig) := by
        simp only [List.all_eq_true, isDisposable_iff, skipped, passes]
      rw [← disposable]
      by_cases all : (skipped s sig).all isDisposable = true
      · exact Or.inl ⟨all, if_pos all⟩
      · exact Or.inr ⟨all, if_neg all⟩
    · cases body : findBody s sig with
      | some j =>
        have least := findBody_eq_some_iff.mp body
        rw [skippedEnd_of_body body, report, body]
        exact Or.inl ⟨least, rfl⟩
      | none =>
        have ends := skippedEnd_of_no_body colon body
        rw [report, body]
        exact Or.inr ⟨Set.eq_empty_iff_forall_notMem.mpr (findBody_eq_none_iff.mp body), ends, rfl⟩
    · rw [splice_of_some found]
      simp

end AutoDoc.SourceText
