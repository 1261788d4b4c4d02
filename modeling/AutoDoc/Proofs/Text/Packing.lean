import AutoDoc.Proofs.Text.Editing
import AutoDoc.Text.Search
import Mathlib.Algebra.Ring.Nat
import Mathlib.Data.Finset.Max
import Mathlib.Order.Interval.Finset.Nat

/-!
# Counting occurrences

A mark can overlap itself: four quotes hold the delimiter of three at two places, but only once
without overlap. Counting takes an occurrence as soon as it meets one and goes on behind it. No
choice of occurrences without overlap (`Packing`) is larger than what is counted in this way
(`Packing.card_le_countFrom`), and there is a choice of that size (`exists_packing`).

A mark without newline characters does not reach from one line into the next, so counting starts
anew with every line (`countFrom_line`) and the counts of the lines add up (`count_intercalate`).
-/

namespace AutoDoc.Text

/-- The characters from a position on start with `mark`. -/
def OccursAt (mark text : List Char) (position : Nat) : Prop := mark <+: text.drop position

instance (mark text : List Char) : DecidablePred (OccursAt mark text) :=
  fun position => inferInstanceAs (Decidable (mark <+: text.drop position))

def stretch (mark : List Char) (position : Nat) : Finset Nat :=
  Finset.Ico position (position + mark.length)

/-- The places of some occurrences of `mark`, no two of which overlap. -/
structure Packing (mark text : List Char) (places : Finset Nat) : Prop where
  occurs : ∀ i ∈ places, OccursAt mark text i
  apart : (places : Set Nat).PairwiseDisjoint (stretch mark)

section

variable {mark text : List Char} {places : Finset Nat}

/-! ### Packings -/

/-- Of two occurrences the later one starts behind the end of the earlier one. -/
theorem Packing.gap (packing : Packing mark text places) {i j : Nat} (first : i ∈ places)
    (second : j ∈ places) (order : i < j) : i + mark.length ≤ j := by
  by_contra short
  have disjoint := packing.apart first second order.ne
  have inFirst : j ∈ stretch mark i := Finset.mem_Ico.mpr ⟨order.le, by omega⟩
  have inSecond : j ∈ stretch mark j := Finset.mem_Ico.mpr ⟨le_rfl, by omega⟩
  exact Finset.disjoint_left.mp disjoint inFirst inSecond

theorem Packing.subset (packing : Packing mark text places) {fewer : Finset Nat}
    (among : fewer ⊆ places) : Packing mark text fewer :=
  ⟨fun i member => packing.occurs i (among member), packing.apart.subset among⟩

/-- An occurrence that ends in front of all the others can be added. -/
theorem Packing.insert (packing : Packing mark text places) {start : Nat}
    (occurs : OccursAt mark text start) (before : ∀ i ∈ places, start + mark.length ≤ i) :
    Packing mark text (insert start places) := by
  constructor
  · intro i member
    rcases Finset.mem_insert.mp member with rfl | later
    · exact occurs
    · exact packing.occurs i later
  · rw [Finset.coe_insert]
    refine packing.apart.insert fun i later _ => ?_
    refine Finset.disjoint_left.mpr fun position inFirst inLater => ?_
    have ends := (Finset.mem_Ico.mp inFirst).2
    have starts := (Finset.mem_Ico.mp inLater).1
    have behind := before i later
    omega

/-- The exchange: a packing that gives up its first occurrence has room for an occurrence at any
place in front. -/
theorem Packing.exchange (packing : Packing mark text places) {start : Nat}
    (behind : ∀ i ∈ places, start ≤ i) :
    ∃ later, Packing mark text later ∧ (∀ i ∈ later, start + mark.length ≤ i) ∧
      places.card ≤ later.card + 1 := by
  rcases places.eq_empty_or_nonempty with rfl | some
  · exact ⟨∅, packing, by simp, by simp⟩
  · have first := places.min'_mem some
    refine ⟨places.erase (places.min' some), packing.subset (Finset.erase_subset _ _), ?_, ?_⟩
    · intro i member
      have gap := packing.gap first (Finset.mem_of_mem_erase member)
        (Finset.min'_lt_of_mem_erase_min' _ _ member)
      have starts := behind _ first
      omega
    · rw [Finset.card_erase_add_one first]

/-! ### Counting from left to right

Both inductions are on the characters `cs` left to read, which start at the position `start` of the
text; the packings speak of positions of the whole text and stay as they are.
-/

theorem drop_next {start : Nat} {c : Char} {cs : List Char} (rest : text.drop start = c :: cs) :
    text.drop (start + 1) = cs := by
  rw [← List.tail_drop, rest, List.tail_cons]

theorem occursAt_iff {start : Nat} {cs : List Char} (rest : text.drop start = cs) :
    OccursAt mark text start ↔ mark.isPrefixOf cs := by
  rw [OccursAt, rest, List.isPrefixOf_iff_prefix]

/-- No packing behind the characters passed over is larger than the count. -/
theorem Packing.card_le_countFrom (marked : mark ≠ []) (packing : Packing mark text places)
    {start skip : Nat} {cs : List Char} (rest : text.drop start = cs)
    (behind : ∀ i ∈ places, start + skip ≤ i) : places.card ≤ countFrom mark skip cs := by
  induction cs generalizing start skip places with
  | nil =>
    have none : places = ∅ := by
      refine Finset.eq_empty_of_forall_notMem fun i member => marked ?_
      have starts := behind i member
      have nothing : text.drop i = [] := by
        rw [List.drop_eq_nil_iff] at rest ⊢
        omega
      have occurs := packing.occurs i member
      rw [OccursAt, nothing] at occurs
      exact List.prefix_nil.mp occurs
    simp [none]
  | cons c cs ih =>
    cases skip with
    | succ skip =>
      rw [countFrom]
      refine ih packing (drop_next rest) fun i member => ?_
      have := behind i member
      omega
    | zero =>
      rw [countFrom]
      split
      next =>
        obtain ⟨later, packed, room, size⟩ := packing.exchange behind
        have counted : later.card ≤ countFrom mark (mark.length - 1) cs := by
          refine ih packed (drop_next rest) fun i member => ?_
          have := room i member
          have := List.length_pos_iff.mpr marked
          omega
        omega
      next absent =>
        refine ih packing (drop_next rest) fun i member => ?_
        have other : i ≠ start := by
          rintro rfl
          exact absent ((occursAt_iff rest).mp (packing.occurs i member))
        have := behind i member
        omega

/-- There is a packing behind the characters passed over that is as large as the count. -/
theorem exists_packing (mark : List Char) (skip : Nat) {start : Nat} {cs : List Char}
    (rest : text.drop start = cs) :
    ∃ places, Packing mark text places ∧ (∀ i ∈ places, start + skip ≤ i) ∧
      places.card = countFrom mark skip cs := by
  induction cs generalizing start skip with
  | nil => exact ⟨∅, ⟨by simp, by simp⟩, by simp, by simp [countFrom]⟩
  | cons c cs ih =>
    cases skip with
    | succ skip =>
      obtain ⟨places, packing, behind, size⟩ := ih skip (drop_next rest)
      refine ⟨places, packing, fun i member => ?_, by rw [countFrom, size]⟩
      have := behind i member
      omega
    | zero =>
      rw [countFrom]
      split
      next here =>
        obtain ⟨places, packing, behind, size⟩ := ih (mark.length - 1) (drop_next rest)
        have fresh : start ∉ places := by
          intro member
          have := behind start member
          omega
        refine ⟨insert start places, packing.insert ((occursAt_iff rest).mpr here) ?_, ?_, ?_⟩
        · intro i member
          have := behind i member
          omega
        · intro i member
          rcases Finset.mem_insert.mp member with rfl | later
          · exact le_rfl
          · have := behind i later
            omega
        · rw [Finset.card_insert_of_notMem fresh, size]
      next =>
        obtain ⟨places, packing, behind, size⟩ := ih 0 (drop_next rest)
        refine ⟨places, packing, fun i member => ?_, size⟩
        have := behind i member
        omega

end

/-! ### Line by line -/

/-- A mark without newline characters at the start of a text stands in its first line. -/
theorem isPrefixOf_line {mark : List Char} (one : '\n' ∉ mark) (cs rest : List Char) :
    mark.isPrefixOf (cs ++ '\n' :: rest) = mark.isPrefixOf cs := by
  induction mark generalizing cs with
  | nil => rfl
  | cons m mark ih =>
    simp only [List.mem_cons, not_or] at one
    cases cs with
    | nil => simp [List.isPrefixOf, Ne.symm one.1]
    | cons c cs => simp [List.isPrefixOf, ih one.2]

/-- Counting starts anew behind a newline character. -/
theorem countFrom_line {mark : List Char} (one : '\n' ∉ mark) (marked : mark ≠ []) {skip : Nat}
    {cs : List Char} (within : skip ≤ cs.length) (rest : List Char) :
    countFrom mark skip (cs ++ '\n' :: rest) = countFrom mark skip cs + countFrom mark 0 rest := by
  induction cs generalizing skip with
  | nil =>
    obtain rfl : skip = 0 := Nat.le_zero.mp within
    have absent : ¬ mark.isPrefixOf ('\n' :: rest) := by
      rw [← List.nil_append ('\n' :: rest), isPrefixOf_line one, List.isPrefixOf_iff_prefix,
        List.prefix_nil]
      exact marked
    rw [List.nil_append, countFrom, Nat.zero_add, countFrom, if_neg absent]
  | cons c cs ih =>
    rw [List.cons_append]
    cases skip with
    | succ skip =>
      rw [countFrom, countFrom]
      exact ih (Nat.le_of_succ_le_succ within)
    | zero =>
      rw [countFrom, countFrom, ← List.cons_append, isPrefixOf_line one]
      split
      next here =>
        -- The occurrence ends within the line, so what is passed over does as well.
        have length := (List.isPrefixOf_iff_prefix.mp here).length_le
        rw [List.length_cons] at length
        rw [ih (by omega), Nat.add_right_comm]
      next => exact ih (Nat.zero_le _)

theorem count_line {mark : String} (one : '\n' ∉ mark.toList) (line rest : String) :
    count mark (line ++ "\n" ++ rest) = count mark line + count mark rest := by
  unfold count
  split
  next => rfl
  next marked =>
    rw [List.isEmpty_iff] at marked
    rw [String.toList_append, String.toList_append, List.append_assoc]
    exact countFrom_line one marked (Nat.zero_le _) rest.toList

/-- A joined text holds a mark as often as its lines do together. -/
theorem count_intercalate {mark : String} (one : '\n' ∉ mark.toList) (lines : List String) :
    count mark (String.intercalate "\n" lines) = (lines.map (count mark)).sum := by
  induction lines with
  | nil => simp [count, countFrom]
  | cons line rest ih =>
    cases rest with
    | nil => simp
    | cons next rest =>
      rw [String.intercalate_cons_cons, count_line one, ih, ← List.sum_cons, ← List.map_cons]

/-- Counting finds as many occurrences of a mark as can be chosen without overlap, and for a mark
without newline characters the count of a text is the sum of the counts of its lines. -/
theorem count_maximal (mark s : String) :
    (mark ≠ "" → IsGreatest {n | ∃ places, Packing mark.toList s.toList places ∧ places.card = n}
      (count mark s)) ∧
    ('\n' ∉ mark.toList →
      count mark s = ((SourceText.ofText s).lines.map (count mark)).sum) := by
  constructor
  · intro some
    have marked : mark.toList ≠ [] := by simpa using some
    have counted : count mark s = countFrom mark.toList 0 s.toList := by
      rw [count, if_neg]
      simpa using some
    rw [counted]
    constructor
    · obtain ⟨places, packing, _, size⟩ :=
        exists_packing mark.toList 0 (List.drop_zero (l := s.toList))
      exact ⟨places, packing, size⟩
    · rintro _ ⟨places, packing, rfl⟩
      exact packing.card_le_countFrom marked List.drop_zero fun i _ => Nat.zero_le i
  · intro one
    rw [← count_intercalate one]
    exact congrArg (count mark) (SourceText.toText_ofText s).symm

/-- Eleven quotes on two lines: the delimiter of three stands at seven places, of which three can be
chosen without overlap. -/
theorem count_maximal_overlapping :
    let mark := "\"\"\""
    let text := "\"\"\"\"\n\"\"\"\"\"\"\""
    mark ≠ "" ∧ '\n' ∉ mark.toList ∧
      {i ∈ Finset.range 12 | OccursAt mark.toList text.toList i} = {0, 1, 5, 6, 7, 8, 9} ∧
      IsGreatest {n | ∃ places, Packing mark.toList text.toList places ∧ places.card = n} 3 ∧
      count mark text = 3 ∧ ((SourceText.ofText text).lines.map (count mark)).sum = 3 := by
  intro mark text
  have some : mark ≠ "" := by decide
  have one : '\n' ∉ mark.toList := by decide
  have counted : count mark text = 3 := by decide
  obtain ⟨greatest, lines⟩ := count_maximal mark text
  exact ⟨some, one, by decide, counted ▸ greatest some, counted, (lines one).symm.trans counted⟩

end AutoDoc.Text
