import AutoDoc.Splice
import Mathlib.Data.List.Basic

/-!
# The shape of a splice

A splice is one edit of the lines. It keeps everything up to the signature, it may drop a run of
disposable lines directly behind the signature, and it puts the block and one empty line there:

* the signature is the first line of the range that ends with a colon (`findSignature_eq_some_iff`,
  `findSignature_eq_none_iff`), so it depends on the lines up to it only (`findSignature_congr`);
* without a signature nothing changes (`splice_of_none`);
* with one, the lines are those before `place`, the block, an empty line, and those from
  `skippedEnd` on (`splice_of_some`), and what lies between is disposable (`dropped_disposable`).

`splice_cases` says all of it at once for proofs that need no more.
-/

namespace AutoDoc.Splice

def colonAt (s : SourceText) (i : Nat) : Bool := (s.line? i).any endsWithColon

theorem colonAt_lt {s : SourceText} {i : Nat} (colon : colonAt s i = true) : i < s.size := by
  unfold colonAt SourceText.line? at colon
  cases found : s.lines[i]? with
  | none => simp [found] at colon
  | some line =>
    obtain ⟨bound, _⟩ := List.getElem?_eq_some_iff.mp found
    exact bound

theorem colonAt_congr {s t : SourceText} {i : Nat} (same : s.lines[i]? = t.lines[i]?) :
    colonAt s i = colonAt t i := by
  simp only [colonAt, SourceText.line?, same]

private theorem getElem?_range (lines : List String) (start stop k : Nat) :
    ((lines.take stop).drop start)[k]? = if start + k < stop then lines[start + k]? else none := by
  rw [List.getElem?_drop, List.getElem?_take]

/-- The signature is the first line of the range that ends with a colon. -/
theorem findSignature_eq_some_iff {s : SourceText} {start stop sig : Nat} :
    findSignature s start stop = some sig ↔
      start ≤ sig ∧ sig < stop ∧ colonAt s sig = true ∧
        ∀ i, start ≤ i → i < sig → colonAt s i = false := by
  constructor
  · intro found
    obtain ⟨k, atK, rfl⟩ := Option.map_eq_some_iff.mp found
    obtain ⟨bound, colon, first⟩ := List.findIdx?_eq_some_iff_getElem.mp atK
    have inside : start + k < stop := by
      simp only [List.length_drop, List.length_take] at bound
      omega
    have atLine := getElem?_range s.lines start stop k
    rw [if_pos inside, List.getElem?_eq_getElem bound] at atLine
    refine ⟨Nat.le_add_right _ _, inside, ?_, ?_⟩
    · simp only [colonAt, SourceText.line?, ← atLine, Option.any_some, colon]
    · intro i low high
      have before := first (i - start) (by omega)
      have atI := getElem?_range s.lines start stop (i - start)
      rw [if_pos (by omega), List.getElem?_eq_getElem (by omega)] at atI
      rw [Nat.add_sub_cancel' low] at atI
      simp only [colonAt, SourceText.line?, ← atI, Option.any_some]
      simpa using before
  · rintro ⟨low, high, colon, first⟩
    have bound := colonAt_lt colon
    unfold SourceText.size at bound
    refine Option.map_eq_some_iff.mpr ⟨sig - start, ?_, by omega⟩
    apply List.findIdx?_eq_some_iff_getElem.mpr
    have inRange : sig - start < ((s.lines.take stop).drop start).length := by
      simp only [List.length_drop, List.length_take]
      omega
    refine ⟨inRange, ?_, ?_⟩
    · have atSig := getElem?_range s.lines start stop (sig - start)
      rw [if_pos (by omega), List.getElem?_eq_getElem inRange, Nat.add_sub_cancel' low] at atSig
      simpa only [colonAt, SourceText.line?, ← atSig, Option.any_some] using colon
    · intro k below
      have atK := getElem?_range s.lines start stop k
      rw [if_pos (by omega), List.getElem?_eq_getElem (by omega)] at atK
      have absent := first (start + k) (by omega) (by omega)
      simp only [colonAt, SourceText.line?, ← atK, Option.any_some] at absent
      simpa using absent

/-- There is no signature just if no line of the range ends with a colon. -/
theorem findSignature_eq_none_iff {s : SourceText} {start stop : Nat} :
    findSignature s start stop = none ↔
      ∀ i, start ≤ i → i < stop → colonAt s i = false := by
  constructor
  · intro absent i low high
    have none := Option.map_eq_none_iff.mp absent
    rw [List.findIdx?_eq_none_iff] at none
    cases atI : s.lines[i]? with
    | none => simp [colonAt, SourceText.line?, atI]
    | some line =>
      have range := getElem?_range s.lines start stop (i - start)
      rw [if_pos (by omega), Nat.add_sub_cancel' low, atI] at range
      have := none line (List.mem_of_getElem? range)
      simp [colonAt, SourceText.line?, atI, this]
  · intro absent
    apply Option.map_eq_none_iff.mpr
    rw [List.findIdx?_eq_none_iff]
    intro line member
    obtain ⟨k, atK⟩ := List.mem_iff_getElem?.mp member
    have range := getElem?_range s.lines start stop k
    rw [atK] at range
    split at range
    next inside =>
      have := absent (start + k) (Nat.le_add_right _ _) inside
      simpa [colonAt, SourceText.line?, ← range] using this
    · cases range

/-- A signature depends on the lines up to it only. -/
theorem findSignature_congr {s t : SourceText} {start stop sig : Nat}
    (found : findSignature s start stop = some sig)
    (same : s.lines.take (sig + 1) = t.lines.take (sig + 1)) :
    findSignature t start stop = some sig := by
  obtain ⟨low, high, colon, first⟩ := findSignature_eq_some_iff.mp found
  have agree : ∀ i, i ≤ sig → colonAt t i = colonAt s i := by
    intro i below
    apply colonAt_congr
    rw [← List.getElem?_take_of_lt (Nat.lt_succ_of_le below), ← same,
      List.getElem?_take_of_lt (Nat.lt_succ_of_le below)]
  apply findSignature_eq_some_iff.mpr
  refine ⟨low, high, by rw [agree sig (Nat.le_refl _), colon], ?_⟩
  intro i above below
  rw [agree i (Nat.le_of_lt below)]
  exact first i above below

/-- The range of a signature holds a line that ends with a colon, and conversely. -/
theorem findSignature_isSome (s : SourceText) (start stop : Nat) :
    (findSignature s start stop).isSome = ((s.lines.take stop).drop start).any endsWithColon := by
  simp [findSignature, List.findIdx?_isSome]

/-- The end of the lines passed over behind a signature: the first line of the body, or the end of
the content. -/
def skippedEnd (s : SourceText) (sig : Nat) : Nat :=
  max ((findBody s sig).getD s.contentEnd) (sig + 1)

/-- The lines passed over behind a signature. -/
def skipped (s : SourceText) (sig : Nat) : List String :=
  (s.lines.take (skippedEnd s sig)).drop (sig + 1)

/-- Where the block goes: directly behind the signature if the lines passed over can be dropped,
else behind them. -/
def place (s : SourceText) (sig : Nat) : Nat :=
  if (skipped s sig).all isDisposable then sig + 1 else skippedEnd s sig

def report (s : SourceText) (sig : Nat) : Outcome :=
  if (findBody s sig).isSome then .inserted (place s sig) else .appended

theorem report_modified (s : SourceText) (sig : Nat) : (report s sig).modified = true := by
  unfold report
  split <;> rfl

theorem bodyOffset_lt {inString : Bool} {lines : List String} {k : Nat}
    (found : bodyOffset inString lines = some k) : k < lines.length := by
  induction lines generalizing inString k with
  | nil => simp [bodyOffset] at found
  | cons line rest ih =>
    have later : ∀ b, (bodyOffset b rest).map (· + 1) = some k → k < (line :: rest).length := by
      intro b step
      obtain ⟨n, inRest, rfl⟩ := Option.map_eq_some_iff.mp step
      exact Nat.succ_lt_succ (ih inRest)
    simp only [bodyOffset] at found
    split at found
    · exact later _ found
    · split at found
      · exact later _ found
      · split at found
        · cases found
          exact Nat.succ_pos _
        · exact later _ found

theorem findBody_bounds {s : SourceText} {sig i : Nat} (found : findBody s sig = some i) :
    sig < i ∧ i < s.size := by
  obtain ⟨k, offset, rfl⟩ := Option.map_eq_some_iff.mp found
  have bound := bodyOffset_lt offset
  simp only [List.length_drop] at bound
  unfold SourceText.size
  omega

theorem contentEnd_le (s : SourceText) : s.contentEnd ≤ s.size := by
  unfold SourceText.contentEnd
  split
  · split <;> omega
  · exact Nat.le_refl _

/-- A line that ends with a colon is not an empty last line, so the content ends behind it. -/
theorem lt_contentEnd {s : SourceText} {sig : Nat} (colon : colonAt s sig = true) :
    sig < s.contentEnd := by
  have inside := colonAt_lt colon
  unfold SourceText.contentEnd
  split
  next last found =>
    split
    next empty =>
      -- The last line is empty, so it is not the one with the colon.
      by_contra beyond
      have index : sig = s.lines.length - 1 := by
        unfold SourceText.size at inside beyond
        omega
      rw [List.getLast?_eq_getElem?] at found
      rw [colonAt, SourceText.line?, index, found, empty.1] at colon
      revert colon
      decide
    next => exact inside
  next => exact inside

theorem lt_skippedEnd (s : SourceText) (sig : Nat) : sig < skippedEnd s sig :=
  Nat.lt_of_lt_of_le (Nat.lt_succ_self sig) (Nat.le_max_right _ _)

theorem skippedEnd_of_body {s : SourceText} {sig i : Nat} (found : findBody s sig = some i) :
    skippedEnd s sig = i := by
  have after := (findBody_bounds found).1
  simp only [skippedEnd, found, Option.getD_some]
  omega

/-- Without a body everything up to the end of the content is passed over. -/
theorem skippedEnd_of_no_body {s : SourceText} {sig : Nat} (colon : colonAt s sig = true)
    (body : findBody s sig = none) : skippedEnd s sig = s.contentEnd := by
  have behind := lt_contentEnd colon
  rw [skippedEnd, body, Option.getD_none]
  omega

theorem skippedEnd_le {s : SourceText} {sig : Nat} (inside : sig < s.size) :
    skippedEnd s sig ≤ s.size := by
  unfold skippedEnd
  apply Nat.max_le.mpr
  refine ⟨?_, inside⟩
  cases body : findBody s sig with
  | none => exact contentEnd_le s
  | some i => exact Nat.le_of_lt (findBody_bounds body).2

theorem lt_place (s : SourceText) (sig : Nat) : sig < place s sig := by
  unfold place
  split
  · exact Nat.lt_succ_self sig
  · exact lt_skippedEnd s sig

theorem place_le_skippedEnd (s : SourceText) (sig : Nat) : place s sig ≤ skippedEnd s sig := by
  unfold place
  split
  · exact lt_skippedEnd s sig
  · exact Nat.le_refl _

/-- What a splice leaves out is disposable. -/
theorem dropped_disposable (s : SourceText) (sig : Nat) :
    ∀ line ∈ (s.lines.take (skippedEnd s sig)).drop (place s sig), isDisposable line = true := by
  intro line member
  unfold place at member
  split at member
  next disposable => exact List.all_eq_true.mp disposable line member
  next => simp at member

/-! ### Lines passed over above a line with a colon -/

/-- A line that ends with a colon is never one that a splice leaves out. -/
theorem not_isDisposable_of_endsWithColon {line : String} (colon : endsWithColon line = true) :
    isDisposable line = false := by
  have last : (Text.trim line).toList.getLast? = some ':' := by
    simpa [endsWithColon] using colon
  by_contra disposable
  have quotes : (Text.trim line).toList.all isQuote = true := by
    simpa [isDisposable] using disposable
  have quote := List.all_eq_true.mp quotes ':' (List.mem_of_getLast? last)
  revert quote
  decide

/-- The search for a body looks at no line behind the one that it finds. -/
theorem bodyOffset_congr {inString : Bool} {a b : List String} {n : Nat}
    (found : bodyOffset inString a = some n) (same : b.take (n + 1) = a.take (n + 1)) :
    bodyOffset inString b = some n := by
  induction a generalizing inString b n with
  | nil => simp [bodyOffset] at found
  | cons line rest ih =>
    cases b with
    | nil => simp at same
    | cons other more =>
      simp only [List.take_succ_cons, List.cons.injEq] at same
      obtain ⟨rfl, same⟩ := same
      have later : ∀ state, (bodyOffset state rest).map (· + 1) = some n →
          (bodyOffset state more).map (· + 1) = some n := by
        intro state step
        obtain ⟨m, inRest, rfl⟩ := Option.map_eq_some_iff.mp step
        rw [ih inRest same]
        rfl
      unfold bodyOffset at found ⊢
      dsimp only at found ⊢
      split at found
      next opens =>
        rw [if_pos opens]
        exact later _ found
      next stays =>
        rw [if_neg stays]
        split at found
        next closes =>
          rw [if_pos closes]
          exact later _ found
        next goesOn =>
          rw [if_neg goesOn]
          split at found
          next body =>
            rw [if_pos body]
            exact found
          next passed =>
            rw [if_neg passed]
            exact later _ found

/-- If only disposable lines are passed over, they end above the next line with a colon. -/
theorem skippedEnd_le_of_colonAt {s : SourceText} {sig bound : Nat}
    (colon : colonAt s bound = true) (above : sig < bound)
    (disposable : (skipped s sig).all isDisposable = true) : skippedEnd s sig ≤ bound := by
  obtain ⟨line, atBound, ends⟩ := (Option.any_eq_true _ _).mp colon
  by_contra beyond
  have member : line ∈ skipped s sig := by
    unfold skipped
    refine List.mem_iff_getElem?.mpr ⟨bound - (sig + 1), ?_⟩
    rw [List.getElem?_drop, Nat.add_sub_cancel' above, List.getElem?_take_of_lt (by omega)]
    exact atBound
  have passed := List.all_eq_true.mp disposable line member
  rw [not_isDisposable_of_endsWithColon ends] at passed
  cases passed

/-- A text that agrees up to that line passes over the same lines. -/
theorem skippedEnd_congr {s t : SourceText} {sig bound : Nat}
    (same : t.lines.take (bound + 1) = s.lines.take (bound + 1))
    (colon : colonAt s bound = true) (above : sig < bound)
    (disposable : (skipped s sig).all isDisposable = true) :
    skippedEnd t sig = skippedEnd s sig := by
  have ends := skippedEnd_le_of_colonAt colon above disposable
  obtain ⟨i, body⟩ : ∃ i, findBody s sig = some i := by
    rw [← Option.isSome_iff_exists, ← Option.ne_none_iff_isSome]
    intro none
    have behind := lt_contentEnd colon
    simp only [skippedEnd, none, Option.getD_none] at ends
    omega
  have first := skippedEnd_of_body body
  obtain ⟨n, offset, rfl⟩ := Option.map_eq_some_iff.mp body
  have agree : (t.lines.drop (sig + 1)).take (n + 1) = (s.lines.drop (sig + 1)).take (n + 1) := by
    have within : sig + 1 + (n + 1) ≤ bound + 1 := by omega
    rw [List.take_drop, List.take_drop, ← Nat.min_eq_left within, ← List.take_take,
      ← List.take_take, same]
  have again : findBody t sig = some (sig + 1 + n) := by
    unfold findBody
    rw [bodyOffset_congr offset agree]
    rfl
  simp only [skippedEnd, body, again, Option.getD_some]

theorem skipped_congr {s t : SourceText} {sig bound : Nat}
    (same : t.lines.take (bound + 1) = s.lines.take (bound + 1))
    (colon : colonAt s bound = true) (above : sig < bound)
    (disposable : (skipped s sig).all isDisposable = true) : skipped t sig = skipped s sig := by
  have ends := skippedEnd_congr same colon above disposable
  have below := skippedEnd_le_of_colonAt colon above disposable
  have within : skippedEnd s sig ≤ bound + 1 := Nat.le_succ_of_le below
  unfold skipped
  rw [ends, ← Nat.min_eq_left within, ← List.take_take, ← List.take_take, same]

/-- The lines behind a signature are those passed over and the rest. -/
theorem drop_signature (s : SourceText) (sig : Nat) :
    s.lines.drop (sig + 1) = skipped s sig ++ s.lines.drop (skippedEnd s sig) := by
  have ordered := lt_skippedEnd s sig
  have parts := List.take_append_drop (skippedEnd s sig - (sig + 1)) (s.lines.drop (sig + 1))
  rw [List.take_drop, List.drop_drop, Nat.add_sub_cancel' ordered] at parts
  exact parts.symm

end AutoDoc.Splice

namespace AutoDoc.SourceText

open Splice

theorem splice_of_none {s : SourceText} {startLine endLine : Nat} {block : List String}
    (absent : findSignature s (startLine - 1) endLine = none) :
    s.splice startLine endLine block = (.signatureNotFound, s) := by
  unfold splice
  rw [absent]

/-- Replacing lines within the text. -/
theorem replace_of_le {s : SourceText} {start stop : Nat} {new : List String}
    (ordered : start ≤ stop) (inside : stop ≤ s.size) :
    s.replace start stop new = ⟨s.lines.take start ++ new ++ s.lines.drop stop⟩ := by
  simp only [replace, Nat.min_eq_left inside, Nat.min_eq_left ordered]

/-- A splice with a signature in closed form. -/
theorem splice_of_some {s : SourceText} {startLine endLine sig : Nat} {block : List String}
    (found : findSignature s (startLine - 1) endLine = some sig) :
    s.splice startLine endLine block =
      (report s sig,
        ⟨s.lines.take (place s sig) ++ (block ++ [""]) ++ s.lines.drop (skippedEnd s sig)⟩) := by
  have inside := colonAt_lt (findSignature_eq_some_iff.mp found).2.2.1
  have bound := skippedEnd_le inside
  unfold splice
  rw [found]
  by_cases disposable : (skipped s sig).all isDisposable
  · -- The block takes the place of the lines passed over.
    have here : place s sig = sig + 1 := if_pos disposable
    simp only [skipped, skippedEnd] at disposable
    simp only [disposable, if_true]
    rw [replace_of_le (Nat.le_max_right _ _) bound]
    cases body : findBody s sig <;> simp [report, body, here, skippedEnd]
  · -- The lines passed over stay, so there are some and the maximum is attained by the body.
    have here : place s sig = skippedEnd s sig := if_neg disposable
    simp only [skipped, skippedEnd] at disposable
    simp only [disposable]
    cases body : findBody s sig with
    | some i =>
      have below := (findBody_bounds body).2
      have atBody := skippedEnd_of_body body
      simp only [SourceText.insert, replace_of_le (Nat.le_refl i) (Nat.le_of_lt below), report,
        here, atBody, body]
      rfl
    | none =>
      have atEnd : skippedEnd s sig = s.contentEnd := by
        by_contra differs
        have : max s.contentEnd (sig + 1) = sig + 1 := by
          simp only [skippedEnd, body, Option.getD_none] at differs
          omega
        apply disposable
        simp [body, this]
      simp only [SourceText.append, SourceText.insert, replace_of_le (Nat.le_refl _)
        (contentEnd_le s), report, here, atEnd, body]
      rfl

/-- What a splice can do: nothing, or one edit behind a signature. -/
theorem splice_cases (s : SourceText) (startLine endLine : Nat) (block : List String) :
    (findSignature s (startLine - 1) endLine = none ∧
      s.splice startLine endLine block = (.signatureNotFound, s)) ∨
    ∃ sig outcome i j, findSignature s (startLine - 1) endLine = some sig ∧
      outcome.modified = true ∧ sig < i ∧ i ≤ j ∧ j ≤ s.size ∧
      (∀ line ∈ (s.lines.take j).drop i, isDisposable line = true) ∧
      s.splice startLine endLine block =
        (outcome, ⟨s.lines.take i ++ (block ++ [""]) ++ s.lines.drop j⟩) := by
  cases found : findSignature s (startLine - 1) endLine with
  | none => exact Or.inl ⟨rfl, splice_of_none found⟩
  | some sig =>
    have inside := colonAt_lt (findSignature_eq_some_iff.mp found).2.2.1
    exact Or.inr ⟨sig, report s sig, place s sig, skippedEnd s sig, rfl, report_modified s sig,
      lt_place s sig, place_le_skippedEnd s sig, skippedEnd_le inside, dropped_disposable s sig,
      splice_of_some found⟩

end AutoDoc.SourceText
