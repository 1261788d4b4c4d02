import AutoDoc.Proofs.Revision.Descent
import AutoDoc.Proofs.Text.Folding

/-!
# Blocks directly under their lines

The text that a run of splices ends with, in closed form, when behind every signature the first line
that is not blank opens no string: each block and an empty line stand directly under the signature,
in the place of the blank lines that were there, and all other lines are as they were.

* `underLines` — a text with blocks put under some of its lines;
* `splice_under` — what one splice does behind such a signature;
* `Placed.step` — a text with blocks under lower lines only gets one more;
* `spliceAll_under` — the run, by induction.
-/

namespace AutoDoc

open Splice

namespace SourceText

/-- Lines from an index on, with blocks put directly under some of them. Behind a block stands an
empty line, and the blank lines that followed are left out; `behind` says that the head comes behind
a block. -/
def underLines (blockAt : Nat → Option (List String)) : Bool → Nat → List String → List String
  | _, _, [] => []
  | behind, i, line :: rest =>
    if behind && Text.isBlank line then underLines blockAt true (i + 1) rest
    else
      match blockAt i with
      | some block => line :: (block ++ "" :: underLines blockAt true (i + 1) rest)
      | none => line :: underLines blockAt false (i + 1) rest

section

variable {blockAt : Nat → Option (List String)} {behind : Bool} {i : Nat} {line : String}
  {rest : List String}

theorem underLines_blank (blank : Text.isBlank line = true) :
    underLines blockAt true i (line :: rest) = underLines blockAt true (i + 1) rest := by
  rw [underLines, blank]
  rfl

theorem underLines_some {block : List String} (stays : (behind && Text.isBlank line) = false)
    (here : blockAt i = some block) :
    underLines blockAt behind i (line :: rest) =
      line :: (block ++ "" :: underLines blockAt true (i + 1) rest) := by
  rw [underLines, stays, here]
  rfl

theorem underLines_none (stays : (behind && Text.isBlank line) = false)
    (here : blockAt i = none) :
    underLines blockAt behind i (line :: rest) = line :: underLines blockAt false (i + 1) rest := by
  rw [underLines, stays, here]
  rfl

theorem underLines_congr {other : Nat → Option (List String)} (behind : Bool) (lines : List String)
    (same : ∀ j, i ≤ j → blockAt j = other j) :
    underLines blockAt behind i lines = underLines other behind i lines := by
  induction lines generalizing behind i with
  | nil => rfl
  | cons line rest ih =>
    have later := fun b => ih b fun j high => same j (Nat.le_of_succ_le high)
    simp only [underLines, later, same i (Nat.le_refl i)]

/-- Without blocks nothing changes. -/
theorem underLines_free (lines : List String) (free : ∀ j, blockAt j = none) :
    underLines blockAt false i lines = lines := by
  induction lines generalizing i with
  | nil => rfl
  | cons line rest ih => rw [underLines_none rfl (free i), ih]

/-- Changing lines and blocks alike, in a way that keeps blank lines blank. -/
theorem underLines_map {f : String → String} (empty : f "" = "")
    (blank : ∀ line, Text.isBlank (f line) = Text.isBlank line) (lines : List String) :
    (underLines blockAt behind i lines).map f =
      underLines (fun j => (blockAt j).map (·.map f)) behind i (lines.map f) := by
  induction lines generalizing behind i with
  | nil => rfl
  | cons line rest ih =>
    rw [List.map_cons]
    cases stays : behind && Text.isBlank line with
    | true =>
      rw [Bool.and_eq_true] at stays
      rw [stays.1, underLines_blank stays.2, underLines_blank ((blank line).trans stays.2), ih]
    | false =>
      have folded : (behind && Text.isBlank (f line)) = false := by rw [blank, stays]
      cases here : blockAt i with
      | none =>
        rw [underLines_none stays here, underLines_none folded (by rw [here]; rfl), List.map_cons, ih]
      | some block =>
        rw [underLines_some stays here, underLines_some folded (by rw [here]; rfl), List.map_cons,
          List.map_append, List.map_cons, empty, ih]

theorem underLines_ne_nil {lines : List String} (some : lines ≠ []) :
    underLines blockAt false i lines ≠ [] := by
  cases lines with
  | nil => exact absurd rfl some
  | cons line rest =>
    cases here : blockAt i with
    | none => rw [underLines_none rfl here]; exact List.cons_ne_nil _ _
    | some block => rw [underLines_some rfl here]; exact List.cons_ne_nil _ _

/-- Lines with blocks under some of them are the old lines, empty ones and lines of blocks. -/
theorem mem_underLines {lines : List String} {x : String}
    (member : x ∈ underLines blockAt behind i lines) :
    x ∈ lines ∨ x = "" ∨ ∃ j block, blockAt j = some block ∧ x ∈ block := by
  induction lines generalizing behind i with
  | nil => cases member
  | cons line rest ih =>
    have later : ∀ {b}, x ∈ underLines blockAt b (i + 1) rest → x ∈ line :: rest ∨ x = "" ∨
        ∃ j block, blockAt j = some block ∧ x ∈ block := fun inRest =>
      (ih inRest).imp_left (List.mem_cons_of_mem _)
    cases stays : behind && Text.isBlank line with
    | true =>
      rw [Bool.and_eq_true] at stays
      rw [stays.1, underLines_blank stays.2] at member
      exact later member
    | false =>
      cases here : blockAt i with
      | none =>
        rw [underLines_none stays here] at member
        rcases List.mem_cons.mp member with rfl | inRest
        · exact Or.inl List.mem_cons_self
        · exact later inRest
      | some block =>
        rw [underLines_some stays here] at member
        rcases List.mem_cons.mp member with rfl | behindLine
        · exact Or.inl List.mem_cons_self
        · rcases List.mem_append.mp behindLine with inBlock | inRest
          · exact Or.inr (Or.inr ⟨i, block, here, inBlock⟩)
          · rcases List.mem_cons.mp inRest with rfl | inRest
            · exact Or.inr (Or.inl rfl)
            · exact later inRest

/-- Lines above all blocks stay. -/
theorem underLines_split (lines : List String) {n : Nat}
    (free : ∀ j, j < i + n → blockAt j = none) :
    underLines blockAt false i lines =
      lines.take n ++ underLines blockAt false (i + n) (lines.drop n) := by
  induction n generalizing i lines with
  | zero => rfl
  | succ n ih =>
    cases lines with
    | nil => simp [underLines]
    | cons line rest =>
      rw [underLines_none rfl (free i (by omega)), ih rest fun j below => free j (by omega),
        List.take_succ_cons, List.drop_succ_cons, Nat.add_right_comm, Nat.add_assoc]
      rfl

/-- Behind a block the lines start with the first one that is not blank. -/
theorem underLines_behind (lines : List String) (dark : ∀ j line block,
      lines[j]? = some line → blockAt (i + j) = some block → Text.isBlank line = false) :
    underLines blockAt true i lines =
      (underLines blockAt false i lines).dropWhile Text.isBlank := by
  induction lines generalizing i with
  | nil => rfl
  | cons line rest ih =>
    have later := ih (i := i + 1) fun j line block found here =>
      dark (j + 1) line block found (by rw [← here, Nat.add_assoc, Nat.add_comm 1])
    cases blank : Text.isBlank line with
    | true =>
      have none : blockAt i = none := by
        rw [Option.eq_none_iff_forall_ne_some]
        intro block here
        rw [dark 0 line block rfl here] at blank
        cases blank
      rw [underLines_blank blank, underLines_none rfl none, List.dropWhile_cons_of_pos blank, later]
    | false =>
      have dark : ¬ Text.isBlank line = true := by simp [blank]
      cases here : blockAt i with
      | none =>
        rw [underLines_none (by simp [blank]) here, underLines_none rfl here,
          List.dropWhile_cons_of_neg dark]
      | some block =>
        rw [underLines_some (by simp [blank]) here, underLines_some rfl here,
          List.dropWhile_cons_of_neg dark]

/-- One block more, above all others. -/
theorem underLines_update {lines : List String} {h : Nat} (block : List String)
    (here : lines[h]? = some line) (free : ∀ j < h, blockAt j = none) :
    underLines (Function.update blockAt h (some block)) false 0 lines =
      lines.take (h + 1) ++ (block ++ [""]) ++ underLines blockAt true (h + 1)
        (lines.drop (h + 1)) := by
  obtain ⟨bound, atLine⟩ := List.getElem?_eq_some_iff.mp here
  have above : ∀ j < 0 + h, Function.update blockAt h (some block) j = none := by
    intro j low
    rw [Function.update_of_ne (by omega)]
    exact free j (by omega)
  have later : ∀ j, h + 1 ≤ j → Function.update blockAt h (some block) j = blockAt j :=
    fun j high => Function.update_of_ne (by omega) _ _
  rw [underLines_split lines above, Nat.zero_add, List.drop_eq_getElem_cons bound, atLine,
    underLines_some rfl (Function.update_self h (some block) blockAt),
    underLines_congr true _ later, List.take_add_one, here]
  simp

/-- The first line of text stays first: blocks come behind lines, and empty lines before it go. -/
theorem underLines_head {lines : List String}
    (first : lines.dropWhile Text.isBlank = line :: rest) :
    ∃ more, underLines blockAt true i lines = line :: more := by
  induction lines generalizing i with
  | nil => cases first
  | cons head tail ih =>
    cases blank : Text.isBlank head with
    | true =>
      rw [List.dropWhile_cons_of_pos blank] at first
      rw [underLines_blank blank]
      exact ih first
    | false =>
      rw [List.dropWhile_cons_of_neg (by simp [blank])] at first
      cases first
      cases here : blockAt i with
      | none => exact ⟨_, underLines_none (by simp [blank]) here⟩
      | some block => exact ⟨_, underLines_some (by simp [blank]) here⟩

end

end SourceText

namespace Splice

theorem isDisposable_of_isBlank {line : String} (blank : Text.isBlank line = true) :
    isDisposable line = true := by
  have empty : Text.trimChars line.toList = [] := Text.trimChars_eq_nil.mpr blank
  simp [isDisposable, Text.trim, empty]

/-- Where no string opens, the body starts with the first line that is not blank. -/
theorem bodyOffset_of_first {lines rest : List String} {line : String}
    (first : lines.dropWhile Text.isBlank = line :: rest)
    (plain : opensString (Text.trim line) = false) :
    bodyOffset false lines = some (lines.takeWhile Text.isBlank).length := by
  induction lines with
  | nil => cases first
  | cons head tail ih =>
    cases blank : Text.isBlank head with
    | true =>
      rw [List.dropWhile_cons_of_pos blank] at first
      have empty : Text.trim head = "" := by
        rw [Text.trim, Text.trimChars_eq_nil.mpr blank]
      rw [List.takeWhile_cons_of_pos blank, List.length_cons, bodyOffset, empty, ih first]
      rfl
    | false =>
      rw [List.dropWhile_cons_of_neg (by simp [blank])] at first
      cases first
      have text : (Text.trim line).isEmpty = false := by
        rw [← Bool.not_eq_true]
        intro empty
        have none := congrArg String.toList (String.isEmpty_iff.mp empty)
        rw [Text.trim, String.toList_ofList] at none
        have white := Text.trimChars_eq_nil.mp none
        rw [Text.isBlank, white] at blank
        cases blank
      rw [List.takeWhile_cons_of_neg (by simp [blank]), bodyOffset]
      simp [plain, text]

end Splice

namespace SourceText

/-- Where the first line behind a signature that is not blank opens no string, the block and an
empty line take the place of the blank lines between. -/
theorem splice_under {s : SourceText} {startLine endLine sig : Nat} {line : String}
    {rest : List String} (block : List String)
    (found : findSignature s (startLine - 1) endLine = some sig)
    (first : (s.lines.drop (sig + 1)).dropWhile Text.isBlank = line :: rest)
    (plain : opensString (Text.trim line) = false) :
    s.splice startLine endLine block =
      (.inserted (sig + 1), ⟨s.lines.take (sig + 1) ++ (block ++ [""]) ++ line :: rest⟩) := by
  have body : findBody s sig =
      some (sig + 1 + ((s.lines.drop (sig + 1)).takeWhile Text.isBlank).length) := by
    rw [findBody, bodyOffset_of_first first plain]
    rfl
  have ends : skippedEnd s sig =
      sig + 1 + ((s.lines.drop (sig + 1)).takeWhile Text.isBlank).length := by
    rw [skippedEnd, body, Option.getD_some, Nat.max_eq_left (Nat.le_add_right _ _)]
  have parts := List.takeWhile_append_dropWhile (p := Text.isBlank) (l := s.lines.drop (sig + 1))
  rw [first] at parts
  have passed : skipped s sig = (s.lines.drop (sig + 1)).takeWhile Text.isBlank := by
    rw [skipped, ends, ← List.take_drop]
    nth_rewrite 2 [← parts]
    exact List.take_left
  have direct : place s sig = sig + 1 := by
    apply if_pos
    rw [passed, List.all_eq_true]
    intro x member
    exact isDisposable_of_isBlank (List.mem_takeWhile_imp member)
  have behind : s.lines.drop (skippedEnd s sig) = line :: rest := by
    rw [ends, ← List.drop_drop]
    nth_rewrite 2 [← parts]
    exact List.drop_left
  rw [splice_of_some found, report, body, direct, behind]
  rfl

end SourceText

/-- The block that a revision has put under the line with an index. -/
def Revision.blockUnder (r : Revision) (i : Nat) : Option (List String) :=
  (r.steps.find? fun step => step.element.startLine.toNat == i + 1).map (·.block)

namespace SourceText

theorem spliceAll_elements (text : SourceText) (jobs : List (Element × List String)) :
    (text.spliceAll jobs).steps.map (·.element) = jobs.map (·.1) := by
  induction jobs generalizing text with
  | nil => rfl
  | cons job rest ih => rw [spliceAll_cons, List.map_cons, List.map_cons, ih]

theorem spliceAll_blocks (text : SourceText) (jobs : List (Element × List String)) :
    (text.spliceAll jobs).steps.map (·.block) = jobs.map (·.2) := by
  induction jobs generalizing text with
  | nil => rfl
  | cons job rest ih => rw [spliceAll_cons, List.map_cons, List.map_cons, ih]

/-- A block under this line goes directly under it: the line is the signature of the element, and
the first line behind it that is not blank opens no string. -/
structure OpenSite (text : SourceText) (e : Element) : Prop where
  counted : 0 < e.startLine.toNat
  signature : text.signatureOf e = some (e.startLine.toNat - 1)
  follows : ∃ line rest, (text.lines.drop e.startLine.toNat).dropWhile Text.isBlank = line :: rest ∧
    opensString (Text.trim line) = false

/-- The state of a run between two splices: blocks stand under some lines that are not blank, and
all of them lie below the elements to come. -/
structure Placed (original now : SourceText) (blockAt : Nat → Option (List String))
    (coming : List Element) : Prop where
  untouched : Untouched original now coming
  lines : now.lines = underLines blockAt false 0 original.lines
  dark : ∀ i line block, original.lines[i]? = some line → blockAt i = some block →
    Text.isBlank line = false
  below : ∀ e ∈ coming, ∀ i < e.startLine.toNat, blockAt i = none

theorem Placed.start (text : SourceText) (coming : List Element) :
    Placed text text (fun _ => none) coming where
  untouched := Or.inl rfl
  lines := (underLines_free _ fun _ => rfl).symm
  dark := by
    intro i line block _ here
    cases here
  below := fun _ _ _ _ => rfl

section

variable {original now : SourceText} {blockAt : Nat → Option (List String)} {e : Element}
  {coming : List Element}

/-- One splice puts one more block directly under its line. -/
theorem Placed.step (state : Placed original now blockAt (e :: coming)) (site : OpenSite original e)
    (descending : ∀ later ∈ coming, Element.Below e later) (block : List String) :
    (now.spliceInto e block).1 = .inserted e.startLine.toNat ∧
      Placed original (now.spliceInto e block).2
        (Function.update blockAt (e.startLine.toNat - 1) (some block)) coming := by
  obtain ⟨h, start⟩ : ∃ h, e.startLine.toNat = h + 1 := Nat.exists_eq_add_one.mpr site.counted
  have signature := site.signature
  obtain ⟨line, rest, first, plain⟩ := site.follows
  rw [start] at first
  rw [start, Nat.add_sub_cancel] at signature
  obtain ⟨here, above⟩ := state.untouched.signature
  rw [signature] at here
  obtain ⟨_, _, colon, _⟩ := findSignature_eq_some_iff.mp signature
  obtain ⟨header, atHeader⟩ : ∃ header, original.lines[h]? = some header :=
    ⟨_, List.getElem?_eq_getElem (colonAt_lt colon)⟩
  have inside : (original.lines.take (h + 1)).length = h + 1 := by
    rw [List.length_take]
    exact Nat.min_eq_left (colonAt_lt colon)
  have free : ∀ j < h + 1, blockAt j = none := by
    intro j low
    exact state.below e List.mem_cons_self j (by omega)
  -- What stands behind the signature now starts with the line that stood there first.
  have behind : (now.lines.drop (h + 1)).dropWhile Text.isBlank =
      underLines blockAt true (h + 1) (original.lines.drop (h + 1)) := by
    rw [state.lines, underLines_split original.lines (n := h + 1) (by simpa using free),
      Nat.zero_add, List.drop_left' inside]
    refine (underLines_behind _ ?_).symm
    intro j x b found put
    rw [List.getElem?_drop] at found
    exact state.dark _ x b found put
  obtain ⟨more, leads⟩ : ∃ more, underLines blockAt true (h + 1) (original.lines.drop (h + 1)) =
      line :: more := underLines_head first
  have spliced := splice_under block here (behind.trans leads) plain
  rw [← leads, above h signature] at spliced
  have spliced : now.spliceInto e block = _ := spliced
  refine ⟨by rw [spliced, start], state.untouched.step descending block, ?_, ?_, ?_⟩
  · rw [spliced, start, Nat.add_sub_cancel,
      underLines_update block atHeader fun j low => free j (Nat.lt_succ_of_lt low)]
  · intro i x b found put
    rw [start, Nat.add_sub_cancel] at put
    by_cases same : i = h
    · rw [same, atHeader] at found
      cases found
      rw [← Bool.not_eq_true]
      intro blank
      simp only [colonAt, line?, atHeader, Option.any_some] at colon
      have stays := not_isDisposable_of_endsWithColon colon
      rw [isDisposable_of_isBlank blank] at stays
      cases stays
    · rw [Function.update_of_ne same] at put
      exact state.dark i x b found put
  · intro later member i low
    have order := descending later member
    unfold Element.Below at order
    rw [Function.update_of_ne (by omega)]
    exact state.below later (List.mem_cons_of_mem _ member) i low

/-- The text after a run at open sites: every block has gone directly under its line. -/
theorem Placed.run {jobs : List (Element × List String)}
    (sites : ∀ e ∈ jobs.map (·.1), OpenSite original e)
    (descending : (jobs.map (·.1)).Pairwise Element.Below)
    (state : Placed original now blockAt (jobs.map (·.1))) :
    (∀ step ∈ (now.spliceAll jobs).steps,
      step.outcome = .inserted step.element.startLine.toNat) ∧
    (now.spliceAll jobs).text.lines =
      underLines (fun i => ((now.spliceAll jobs).blockUnder i).or (blockAt i)) false 0
        original.lines := by
  induction jobs generalizing now blockAt with
  | nil =>
    refine ⟨fun _ member => absurd member List.not_mem_nil, ?_⟩
    simpa [Revision.blockUnder] using state.lines
  | cons job rest ih =>
    obtain ⟨e, block⟩ := job
    obtain ⟨first, others⟩ := List.pairwise_cons.mp descending
    have first : ∀ later ∈ rest.map (·.1), Element.Below e later := first
    have site : OpenSite original e := sites e List.mem_cons_self
    have state : Placed original now blockAt (e :: rest.map (·.1)) := state
    obtain ⟨outcome, next⟩ := state.step site first block
    obtain ⟨outcomes, lines⟩ := ih (fun x member => sites x (List.mem_cons_of_mem _ member))
      others next
    rw [spliceAll_cons]
    refine ⟨?_, ?_⟩
    · intro step member
      rcases List.mem_cons.mp member with rfl | later
      · exact outcome
      · exact outcomes step later
    · refine lines.trans ?_
      congr 1
      funext i
      -- No element further up starts on the line of this one.
      have above : i + 1 = e.startLine.toNat →
          ((now.spliceInto e block).2.spliceAll rest).blockUnder i = none := by
        intro here
        unfold Revision.blockUnder
        rw [Option.map_eq_none_iff, List.find?_eq_none]
        intro step member
        have order := first step.element (by
          rw [← spliceAll_elements (now.spliceInto e block).2 rest]
          exact List.mem_map_of_mem member)
        unfold Element.Below at order
        simp only [beq_iff_eq]
        omega
      by_cases here : i + 1 = e.startLine.toNat
      · obtain rfl : i = e.startLine.toNat - 1 := by omega
        rw [above here, Option.none_or, Function.update_self]
        simp [Revision.blockUnder, here]
      · have counted := site.counted
        rw [Function.update_of_ne (by omega)]
        simp [Revision.blockUnder, Ne.symm here]

end

/-- A run at open sites, from the bottom to the top: every block goes directly under its line. -/
theorem spliceAll_under (text : SourceText) (jobs : List (Element × List String))
    (sites : ∀ e ∈ jobs.map (·.1), OpenSite text e)
    (descending : (jobs.map (·.1)).Pairwise Element.Below) :
    (∀ step ∈ (text.spliceAll jobs).steps,
      step.outcome = .inserted step.element.startLine.toNat) ∧
    (text.spliceAll jobs).text.lines =
      underLines (text.spliceAll jobs).blockUnder false 0 text.lines := by
  have run := (Placed.start text (jobs.map (·.1))).run sites descending
  simpa only [Option.or_none] using run

end SourceText

end AutoDoc
