import AutoDoc.Element.Resolution
import AutoDoc.Proofs.Revision.Basic

/-!
# Splicing from the bottom to the top

Line ranges refer to the text that was parsed, and no range is ever shifted. They stay valid all the
same, since blocks are spliced in by descending start line:

* `toDocument_descending` — start lines strictly descend;
* `Untouched` — the invariant of a run: the text so far agrees with the original up to and including
  every signature that was used, and no later element starts behind any of them;
* `spliceAll_signature` — hence each element finds its signature where the original text has it,
  with nothing above it changed, for any blocks;
* `spliceAll_modified` — hence which splices change the text depends on the original text only.
-/

namespace AutoDoc

namespace Element

/-- An element starts below another. -/
def Below (a b : Element) : Prop := b.startLine.toNat < a.startLine.toNat

theorem mem_insertDescending {e x : Element} {sorted : List Element}
    (member : x ∈ insertDescending e sorted) : x = e ∨ x ∈ sorted := by
  induction sorted with
  | nil => simpa [insertDescending] using member
  | cons head rest ih =>
    unfold insertDescending at member
    split at member
    · simpa using member
    · split at member
      · exact Or.inr member
      · rcases List.mem_cons.mp member with rfl | inRest
        · exact Or.inr List.mem_cons_self
        · rcases ih inRest with same | old
          · exact Or.inl same
          · exact Or.inr (List.mem_cons_of_mem _ old)

/-- Inserting keeps a list in strictly descending order. -/
theorem insertDescending_pairwise (e : Element) {sorted : List Element}
    (descending : sorted.Pairwise Below) : (insertDescending e sorted).Pairwise Below := by
  induction sorted with
  | nil => simp [insertDescending]
  | cons head rest ih =>
    obtain ⟨first, others⟩ := List.pairwise_cons.mp descending
    unfold insertDescending
    split
    next lower =>
      have above : Below e head := UInt32.lt_iff_toNat_lt.mp lower
      refine List.pairwise_cons.mpr ⟨?_, descending⟩
      intro x member
      rcases List.mem_cons.mp member with rfl | inRest
      · exact above
      · exact Nat.lt_trans (first x inRest) above
    next notLower =>
      split
      · exact descending
      next differs =>
        refine List.pairwise_cons.mpr ⟨?_, ih others⟩
        intro x member
        rcases mem_insertDescending member with rfl | old
        · have order := mt UInt32.lt_iff_toNat_lt.mpr notLower
          have distinct : head.startLine.toNat ≠ x.startLine.toNat :=
            fun same => differs (UInt32.toNat_inj.mp same)
          unfold Below
          omega
        · exact first x old

/-- The elements that are kept start on descending lines, no two on the same. -/
theorem firstPerLine_pairwise (es : List Element) : (firstPerLine es).Pairwise Below := by
  have run : ∀ (es sorted : List Element), sorted.Pairwise Below →
      (es.foldl (fun sorted e => insertDescending e sorted) sorted).Pairwise Below := by
    intro es
    induction es with
    | nil => intro sorted descending; exact descending
    | cons e rest ih =>
      intro sorted descending
      exact ih _ (insertDescending_pairwise e descending)
  exact run es [] List.Pairwise.nil

end Element

/-- The elements to document descend strictly by start line. -/
theorem Elements.toDocument_descending (es : Elements) : es.toDocument.Pairwise Element.Below :=
  (Element.firstPerLine_pairwise _).filter _

namespace SourceText

open Splice

/-- The signature that the range of an element has in a text. -/
def signatureOf (text : SourceText) (e : Element) : Option Nat :=
  findSignature text (e.startLine.toNat - 1) e.endLine.toNat

/-- The range of an element holds a line of the text that ends with a colon. -/
def hasSignature (text : SourceText) (e : Element) : Bool :=
  ((text.lines.take e.endLine.toNat).drop (e.startLine.toNat - 1)).any endsWithColon

theorem signatureOf_isSome (text : SourceText) (e : Element) :
    (text.signatureOf e).isSome = text.hasSignature e :=
  findSignature_isSome text _ _

/-- The state of a run between two splices, against the original text: some lines at the top are as
they were, and the last of them is a line with a colon, above which all elements to come start;
or nothing has been touched at all. -/
def Untouched (original now : SourceText) (coming : List Element) : Prop :=
  now = original ∨
    ∃ bound, colonAt original bound = true ∧
      now.lines.take (bound + 1) = original.lines.take (bound + 1) ∧
      ∀ e ∈ coming, e.startLine.toNat ≤ bound

/-- An element that is still to come finds its signature where the original text has it, and the
lines up to there are as they were. -/
theorem Untouched.signature {original now : SourceText} {e : Element} {coming : List Element}
    (state : Untouched original now (e :: coming)) :
    now.signatureOf e = original.signatureOf e ∧
      ∀ sig, original.signatureOf e = some sig →
        now.lines.take (sig + 1) = original.lines.take (sig + 1) := by
  rcases state with rfl | ⟨bound, colon, same, starts⟩
  · exact ⟨rfl, fun _ _ => rfl⟩
  · have start : e.startLine.toNat - 1 ≤ bound := by
      have := starts e List.mem_cons_self
      omega
    have prefixes : ∀ n, n ≤ bound + 1 → now.lines.take n = original.lines.take n := by
      intro n below
      rw [← Nat.min_eq_left below, ← List.take_take, same, List.take_take]
    cases found : original.signatureOf e with
    | some sig =>
      -- The line at `bound` is a candidate, so the first one lies no deeper.
      have shallow : sig ≤ bound := by
        obtain ⟨_, inside, _, first⟩ := findSignature_eq_some_iff.mp found
        by_contra deeper
        have := first bound start (Nat.lt_of_not_le deeper)
        rw [colon] at this
        cases this
      have agree := prefixes (sig + 1) (by omega)
      refine ⟨findSignature_congr found agree.symm, ?_⟩
      intro other eq
      cases eq
      exact agree
    | none =>
      have absent := findSignature_eq_none_iff.mp found
      have short : e.endLine.toNat ≤ bound := by
        by_contra longer
        have := absent bound start (Nat.lt_of_not_le longer)
        rw [colon] at this
        cases this
      refine ⟨?_, fun _ eq => by cases eq⟩
      apply findSignature_eq_none_iff.mpr
      intro i low high
      rw [← absent i low high]
      apply colonAt_congr
      rw [← List.getElem?_take_of_lt (show i < bound + 1 by omega), same,
        List.getElem?_take_of_lt (by omega)]

/-- One splice keeps the invariant, whatever the block. -/
theorem Untouched.step {original now : SourceText} {e : Element} {coming : List Element}
    (state : Untouched original now (e :: coming))
    (descending : ∀ later ∈ coming, Element.Below e later) (block : List String) :
    Untouched original (now.spliceInto e block).2 coming := by
  obtain ⟨found, same⟩ := state.signature
  unfold spliceInto
  rcases splice_cases now e.startLine.toNat e.endLine.toNat block with
    ⟨_, unchanged⟩ | ⟨sig, _, i, j, here, _, after, _, inside, _, edited⟩
  · rw [unchanged]
    rcases state with rfl | ⟨bound, colon, agree, starts⟩
    · exact Or.inl rfl
    · exact Or.inr ⟨bound, colon, agree, fun x member => starts x (List.mem_cons_of_mem _ member)⟩
  · have inOriginal : original.signatureOf e = some sig := by
      rw [← found]
      exact here
    obtain ⟨low, _, colon, _⟩ := findSignature_eq_some_iff.mp inOriginal
    refine Or.inr ⟨sig, colon, ?_, ?_⟩
    · rw [edited, ← same sig inOriginal]
      simp only [List.append_assoc]
      rw [List.take_append_of_le_length, List.take_take, Nat.min_eq_left after]
      simp only [List.length_take]
      unfold SourceText.size at inside
      omega
    · intro later member
      have := descending later member
      unfold Element.Below at this
      omega

/-- The invariant after any part of a run whose elements descend. -/
theorem Untouched.run {original : SourceText} (coming : List Element) :
    ∀ (before : List (Element × List String)) (now : SourceText),
      (before.map (·.1) ++ coming).Pairwise Element.Below →
      Untouched original now (before.map (·.1) ++ coming) →
      Untouched original (now.spliceAll before).text coming
  | [], now, _, state => state
  | (e, block) :: rest, now, descending, state => by
    obtain ⟨first, others⟩ := List.pairwise_cons.mp descending
    rw [spliceAll_cons]
    exact Untouched.run coming rest _ others (state.step first block)

/-- In a run whose elements descend, an element finds its signature where the original text has
it, and the lines up to there are as they were. -/
theorem spliceAll_signature (text : SourceText) (before : List (Element × List String))
    (e : Element) (after : List Element)
    (descending : (before.map (·.1) ++ e :: after).Pairwise Element.Below) :
    (text.spliceAll before).text.signatureOf e = text.signatureOf e ∧
      ∀ sig, text.signatureOf e = some sig →
        (text.spliceAll before).text.lines.take (sig + 1) = text.lines.take (sig + 1) :=
  (Untouched.run (e :: after) before text descending (Or.inl rfl)).signature

theorem splice_modified (text : SourceText) (e : Element) (block : List String) :
    (text.spliceInto e block).1.modified =
      (text.signatureOf e).isSome := by
  unfold spliceInto
  rcases splice_cases text e.startLine.toNat e.endLine.toNat block with
    ⟨absent, unchanged⟩ | ⟨_, _, _, _, found, modified, _, _, _, _, edited⟩
  · simp [signatureOf, absent, unchanged, Outcome.modified]
  · simp [signatureOf, found, edited, modified]

/-- Which splices of a descending run change the text is decided by the original text. -/
theorem spliceAll_modified (text : SourceText) (jobs : List (Element × List String))
    (descending : (jobs.map (·.1)).Pairwise Element.Below) :
    (text.spliceAll jobs).steps.map (·.outcome.modified) =
      jobs.map fun job => text.hasSignature job.1 := by
  have run : ∀ (jobs : List (Element × List String)) (now : SourceText),
      (jobs.map (·.1)).Pairwise Element.Below → Untouched text now (jobs.map (·.1)) →
      (now.spliceAll jobs).steps.map (·.outcome.modified) =
        jobs.map fun job => text.hasSignature job.1 := by
    intro jobs
    induction jobs with
    | nil => intro now _ _; rfl
    | cons job rest ih =>
      intro now descending state
      obtain ⟨first, others⟩ := List.pairwise_cons.mp descending
      rw [spliceAll_cons]
      simp only [List.map_cons]
      rw [ih _ others (state.step first job.2), splice_modified, state.signature.1,
        signatureOf_isSome]
  exact run jobs text descending (Or.inl rfl)

/-- Whatever the elements and whatever block is chosen for each of them: at every point of the run
the next element finds its signature where the original text has it, or not at all in both, with
every line up to there as it was; so which splices change the text, and how many, is decided by the
lines that the original text has in each element's range. -/
theorem descending_splices_keep_signatures (text : SourceText) (es : Elements)
    (blockOf : Element → List String) :
    (∀ before e after, es.toDocument = before ++ e :: after →
      let now := (text.spliceAll (before.map fun e => (e, blockOf e))).text
      now.signatureOf e = text.signatureOf e ∧
        ∀ sig, text.signatureOf e = some sig →
          now.lines.take (sig + 1) = text.lines.take (sig + 1)) ∧
    (text.spliceAll (es.toDocument.map fun e => (e, blockOf e))).steps.map (·.outcome.modified) =
      es.toDocument.map text.hasSignature ∧
    (text.spliceAll (es.toDocument.map fun e => (e, blockOf e))).inserted =
      es.toDocument.countP text.hasSignature := by
  have descending := es.toDocument_descending
  have elements : ∀ list : List Element,
      (list.map fun e => (e, blockOf e)).map (·.1) = list := by
    intro list
    rw [List.map_map]
    exact List.map_id list
  have flags := text.spliceAll_modified (es.toDocument.map fun e => (e, blockOf e))
    (by rw [elements]; exact descending)
  rw [List.map_map] at flags
  refine ⟨?_, flags, ?_⟩
  · intro before e after split
    rw [split] at descending
    exact spliceAll_signature text _ e after (by rw [elements]; exact descending)
  · unfold Revision.inserted
    have counted := congrArg (List.countP id) flags
    rw [List.countP_map, List.countP_map] at counted
    exact counted

/-- A class around a method, both without documentation; the block of the method has lines that end
with colons, and the class still finds its own header. -/
theorem descending_splices_keep_signatures_nested :
    let text := SourceText.ofText "class Cart:\n    def total(self):\n        return 0\n"
    let cart : Element := ⟨"Cart", .classDef, 1, 3, "", [], "", [], none, [], [], none, [], [], [],
      3, 3, 0, 0⟩
    let total : Element := ⟨"total", .method, 2, 3, "", ["Cart"], "Cart", [], none, [], [], none,
      [], [], [], 2, 2, 0, 0⟩
    let es : Elements := ⟨[cart], [total], []⟩
    let blockOf := fun _ : Element => ["\"\"\"", "Methods:", "\"\"\""]
    es.toDocument = [total] ++ cart :: [] ∧
      (text.spliceAll [(total, blockOf total)]).text.signatureOf cart = some 0 ∧
      (text.spliceAll (es.toDocument.map fun e => (e, blockOf e))).inserted = 2 := by
  intro text cart total es blockOf
  have both : es.toDocument = [total] ++ cart :: [] := by rfl
  obtain ⟨signatures, _, count⟩ := descending_splices_keep_signatures text es blockOf
  refine ⟨both, ?_, ?_⟩
  · exact (signatures [total] cart [] both).1.trans (by decide)
  · rw [count, both]
    decide

end SourceText

end AutoDoc
