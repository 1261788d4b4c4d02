import AutoDoc.Proofs.Outline.Headers

/-!
# The grammar of blocks

A file is empty or a block without indentation. A block consists of statements of one indentation,
and a statement is a line that neither opens a block nor starts a definition, or a line that opens a
block and a deeper block behind it. The reader by indentation accepts just the sources whose strings
are closed and whose lines of code derive from this grammar (`read_valid_iff_derives`).

A derivation and the stack of open blocks meet at `Completes`: lines that put further statements
into the open blocks, the innermost first. What the stack accepts completes its blocks
(`continues_of_nestedFrom`); the other way, a derivation keeps the stack going (`Derives.nests`).
-/

namespace AutoDoc.ScannedLine

/-- What a run of code lines can stand for. -/
inductive Nonterminal where
  | file
  | block (indent : Nat)
  | statement (indent : Nat)
deriving DecidableEq, Repr

/-- The lines of code derive from the nonterminal. -/
inductive Derives : Nonterminal → List ScannedLine → Prop where
  | empty : Derives .file []
  | file {lines : List ScannedLine} (block : Derives (.block 0) lines) : Derives .file lines
  | single {d : Nat} {lines : List ScannedLine} (statement : Derives (.statement d) lines) :
      Derives (.block d) lines
  | more {d : Nat} {first rest : List ScannedLine} (statement : Derives (.statement d) first)
      (block : Derives (.block d) rest) : Derives (.block d) (first ++ rest)
  | plain {l : ScannedLine} (closed : l.opensBlock = false) (keyword : l.keyword? = none) :
      Derives (.statement l.indent) [l]
  | compound {l : ScannedLine} {inner : Nat} {body : List ScannedLine}
      (opens : l.opensBlock = true) (deeper : l.indent < inner)
      (block : Derives (.block inner) body) : Derives (.statement l.indent) (l :: body)

/-! ### What the stack accepts can be derived -/

/-- The lines put further statements into the open blocks, innermost first. -/
inductive Completes : List Nat → List ScannedLine → Prop where
  | done : Completes [] []
  | leave {d : Nat} {outer : List Nat} {lines : List ScannedLine}
      (around : Completes outer lines) : Completes (d :: outer) lines
  | stay {d : Nat} {outer : List Nat} {first rest : List ScannedLine}
      (statement : Derives (.statement d) first) (behind : Completes (d :: outer) rest) :
      Completes (d :: outer) (first ++ rest)

theorem Completes.nil (stack : List Nat) : Completes stack [] := by
  induction stack with
  | nil => exact .done
  | cons d outer ih => exact ih.leave

/-- Blocks that were left before the next line are complete as well. -/
theorem Completes.of_dropWhile {p : Nat → Bool} {stack : List Nat} {lines : List ScannedLine}
    (rest : Completes (stack.dropWhile p) lines) : Completes stack lines := by
  induction stack with
  | nil => exact rest
  | cons d outer ih =>
    rw [List.dropWhile_cons] at rest
    split at rest
    · exact (ih rest).leave
    · exact rest

/-- The statements of the innermost block come first: none, or a block of its indentation. -/
theorem Completes.split {d : Nat} {outer : List Nat} {lines : List ScannedLine}
    (complete : Completes (d :: outer) lines) :
    ∃ inside behind, lines = inside ++ behind ∧ (inside = [] ∨ Derives (.block d) inside) ∧
      Completes outer behind := by
  generalize stack : d :: outer = blocks at complete
  induction complete with
  | done => cases stack
  | leave around =>
    cases stack
    exact ⟨[], _, rfl, Or.inl rfl, around⟩
  | @stay d outer first rest statement _ ih =>
    cases stack
    obtain ⟨inside, behind, rfl, block, others⟩ := ih rfl
    refine ⟨first ++ inside, behind, (List.append_assoc ..).symm, Or.inr ?_, others⟩
    rcases block with rfl | block
    · rw [List.append_nil]
      exact .single statement
    · exact .more statement block

/-- The lines complete the open blocks; where a block is expected, they start with a statement of
a deeper one. -/
def Continues (stack : List Nat) : Bool → List ScannedLine → Prop
  | false, lines => Completes stack lines
  | true, lines => ∃ inner first rest, stack.head?.getD 0 < inner ∧
      Derives (.statement inner) first ∧ Completes (inner :: stack) rest ∧ lines = first ++ rest

/-- A line and the block that it may open are a statement. -/
theorem statement_of_continues {outer : List Nat} {l : ScannedLine} {rest : List ScannedLine}
    (colon : l.keyword?.isSome = true → l.opensBlock = true)
    (continues : Continues (l.indent :: outer) l.opensBlock rest) :
    ∃ first behind, l :: rest = first ++ behind ∧ Derives (.statement l.indent) first ∧
      Completes (l.indent :: outer) behind := by
  cases opens : l.opensBlock with
  | false =>
    rw [opens] at continues colon
    have keyword : l.keyword? = none := by simpa using colon
    exact ⟨[l], rest, rfl, .plain opens keyword, continues⟩
  | true =>
    rw [opens] at continues
    obtain ⟨inner, first, behind, deeper, statement, complete, rfl⟩ := continues
    obtain ⟨inside, others, rfl, block, around⟩ := complete.split
    refine ⟨l :: (first ++ inside), others, by simp, ?_, around⟩
    refine .compound opens deeper ?_
    rcases block with rfl | block
    · rw [List.append_nil]
      exact .single statement
    · exact .more statement block

/-- What the reader accepts continues the blocks that are open. -/
theorem continues_of_nestedFrom {stack : List Nat} {expected : Bool} {lines : List ScannedLine}
    (nested : nestedFrom stack expected lines = true) : Continues stack expected lines := by
  induction lines generalizing stack expected with
  | nil =>
    cases expected with
    | false => exact Completes.nil stack
    | true => cases nested
  | cons l rest ih =>
    obtain ⟨next, entered, colon, later⟩ := nestedFrom_cons nested
    obtain ⟨outer, rfl⟩ : ∃ outer, next = l.indent :: outer := by
      obtain ⟨outer, same⟩ := List.head?_eq_some_iff.mp (enter_head entered)
      exact ⟨outer, same⟩
    obtain ⟨first, behind, split, statement, complete⟩ := statement_of_continues colon (ih later)
    cases expected with
    | true =>
      have deeper := enter_expected entered
      obtain rfl : outer = stack := (List.cons.inj (enter_block entered)).2
      exact ⟨l.indent, first, behind, deeper, statement, complete, split⟩
    | false =>
      have remaining : l.indent :: outer = stack.dropWhile (l.indent < ·) :=
        enter_remaining entered
      refine Completes.of_dropWhile (p := (l.indent < ·)) ?_
      rw [← remaining, split]
      exact .stay statement complete

/-! ### What can be derived is accepted by the stack -/

/-- A block that is still open does not matter for lines that go on in the block around it. -/
theorem nestedFrom_deeper {outer : List Nat} {d inner : Nat} {lines : List ScannedLine}
    (deeper : d < inner) (nested : nestedFrom (d :: outer) false lines = true) :
    nestedFrom (inner :: d :: outer) false lines = true := by
  cases lines with
  | nil => rfl
  | cons l rest =>
    obtain ⟨next, entered, colon, later⟩ := nestedFrom_cons nested
    have within : l.indent ≤ d := (enter_line entered).1
    refine nestedFrom_of_enter ?_ colon later
    rw [← entered, enter, enter]
    simp [show l.indent < inner by omega, show ¬ inner < l.indent by omega,
      show ¬ d < l.indent by omega]

/-- What a run of lines that derives from the nonterminal does to the stack: a statement or a block
that enters its indentation leads on to lines that go on with the same indentation. -/
def Nonterminal.Nests : Nonterminal → List ScannedLine → Prop
  | .file, lines => nestedFrom [0] false lines = true
  | .block d, lines | .statement d, lines =>
    ∀ {stack : List Nat} {expected : Bool} {outer : List Nat} {rest : List ScannedLine},
      enter stack expected d = some (d :: outer) → nestedFrom (d :: outer) false rest = true →
      nestedFrom stack expected (lines ++ rest) = true

/-- What derives from a nonterminal is accepted wherever that may stand. -/
theorem Derives.nests {n : Nonterminal} {lines : List ScannedLine} (derived : Derives n lines) :
    n.Nests lines := by
  induction derived with
  | empty => rfl
  | @file lines _ ih =>
    have nested : nestedFrom [0] false (lines ++ []) = true := ih (enter_same [] 0) rfl
    rwa [List.append_nil] at nested
  | single _ ih => exact ih
  | more _ _ first rest =>
    intro stack expected outer behind entered goesOn
    rw [List.append_assoc]
    exact first entered (rest (enter_same _ _) goesOn)
  | plain closed keyword =>
    intro stack expected outer behind entered goesOn
    refine nestedFrom_of_enter entered (by simp [keyword]) ?_
    rw [closed]
    exact goesOn
  | @compound l inner body opens deeper _ ih =>
    intro stack expected outer behind entered goesOn
    have enters : enter (l.indent :: outer) true inner = some (inner :: l.indent :: outer) := by
      simp [enter, Nat.not_le_of_lt deeper]
    refine nestedFrom_of_enter entered (fun _ => opens) ?_
    rw [opens]
    exact ih enters (nestedFrom_deeper deeper goesOn)

/-- Lines are well nested just if their code derives from the grammar. -/
theorem wellNested_iff_derives {lines : List ScannedLine} :
    wellNested lines = true ↔ Derives .file (lines.filter isCode) := by
  constructor
  · intro nested
    have complete : Completes [0] (lines.filter isCode) := continues_of_nestedFrom nested
    obtain ⟨inside, behind, split, block, none⟩ := complete.split
    cases none
    rw [split, List.append_nil]
    rcases block with rfl | block
    · exact .empty
    · exact .file block
  · exact Derives.nests

end AutoDoc.ScannedLine

namespace AutoDoc.Outline

open ScannedLine

/-- The reader accepts a source just if no string is open at its end and its lines of code derive
from the grammar of blocks. -/
theorem read_valid_iff_derives (source : String) :
    (read source).valid = true ↔
      (scan (SourceText.ofText source)).2 = none ∧
        Derives .file ((scan (SourceText.ofText source)).1.filter isCode) := by
  rw [← wellNested_iff_derives]
  constructor
  · intro valid
    obtain ⟨closed, nested, _⟩ := read_valid valid
    exact ⟨closed, nested⟩
  · rintro ⟨closed, nested⟩
    simp only [read, closed, nested, Option.isNone_none, Bool.and_self, if_true]
    rfl

end AutoDoc.Outline
