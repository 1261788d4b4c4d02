import AutoDoc.Proofs.Outline.Documentation

/-!
# Scopes and bodies

The reader by indentation says twice where a definition ends: its body reaches from the header over
the lines behind it, and its scope is left at the first line of code that is not deeper. The two
agree on every line of code (`reaches_iff_le_last`).

So while the lines are read, the open scopes are those of the headers that reach the next line, and
the indentation grows inwards (`Scoped`). Every line keeps this up (`Scoped.skip`, `Scoped.enter`),
and at a header the scopes that remain are those of the definitions around it
(`Scoped.enclosing_eq`).
-/

namespace AutoDoc.ScannedLine

open Outline

/-! ### Where a body ends -/

/-- A line of code lies in the body of a definition just if no line up to it leaves the body. -/
theorem lt_bodyOf_length {indent k : Nat} {lines : List ScannedLine} {l : ScannedLine}
    {rest : List ScannedLine} (found : lines.drop k = l :: rest) (code : l.isCode = true) :
    k < (bodyOf indent lines).length ↔ ∀ x ∈ lines.take (k + 1), inBody indent x = true := by
  induction lines generalizing k with
  | nil => cases k <;> cases found
  | cons x lines ih =>
    rw [bodyOf_cons]
    cases k with
    | zero =>
      cases found
      have kept : l.isTrailing = false := by
        simp only [isCode, Bool.and_eq_true, Bool.not_eq_true'] at code
        simp [isTrailing, code.1]
      cases inside : inBody indent l <;> simp [inside, kept]
    | succ k =>
      have deeper := ih found
      rw [List.take_succ_cons, List.forall_mem_cons, ← deeper]
      -- A body that reaches beyond the first line holds a line behind it.
      have holds : k < (bodyOf indent lines).length → hasBody indent lines = true := by
        intro more
        have written : bodyOf indent lines ≠ [] := List.ne_nil_of_length_pos (by omega)
        simpa [hasBody] using written
      constructor
      · intro more
        split at more
        next inside =>
          rw [List.length_cons] at more
          exact ⟨(Bool.and_eq_true_iff.mp inside).1, by omega⟩
        next => cases more
      · rintro ⟨inside, more⟩
        rw [if_pos (by simp [inside, holds more]), List.length_cons]
        omega

/-! ### Headers -/

namespace Header

/-- The header stands at its index among the lines. -/
structure At (lines : List ScannedLine) (h : Header) : Prop where
  found : lines.drop h.index = h.line :: h.rest
  header : h.line.isHeader = true

def last (h : Header) : Nat := h.index + (bodyOf h.line.indent h.rest).length

def isClass (h : Header) : Bool := h.line.keyword? == some .classDef

def scope (h : Header) : Scope := ⟨h.line.definedName, h.isClass, h.line.indent⟩

/-- No line between the header and the line with index `j` leaves the body. -/
def Reaches (h : Header) (j : Nat) : Prop :=
  ∀ x ∈ h.rest.take (j - (h.index + 1)), inBody h.line.indent x = true

variable {lines : List ScannedLine} {h : Header} {j : Nat} {l : ScannedLine}
  {rest : List ScannedLine}

theorem mem_headers : h ∈ headersFrom 0 lines ↔ h.At lines := by
  rw [mem_headersFrom]
  constructor
  · rintro ⟨i, place, found, header⟩
    rw [Nat.zero_add] at place
    exact ⟨place ▸ found, header⟩
  · rintro ⟨found, header⟩
    exact ⟨h.index, (Nat.zero_add _).symm, found, header⟩

/-- A header is known by its index. -/
theorem At.ext {a b : Header} (atA : a.At lines) (atB : b.At lines) (same : a.index = b.index) :
    a = b := by
  rcases a with ⟨i, line, rest⟩
  rcases b with ⟨j, other, others⟩
  obtain rfl : i = j := same
  have parts := atA.found.symm.trans atB.found
  cases parts
  rfl

theorem At.isCode (place : h.At lines) : h.line.isCode = true :=
  (Bool.and_eq_true_iff.mp place.header).1

theorem At.last_lt (place : h.At lines) : h.last < lines.length := by
  have total := congrArg List.length place.found
  rw [List.length_drop, List.length_cons] at total
  have body := bodyOf_length_le h.line.indent h.rest
  unfold last
  omega

/-- What stands at a later index stands behind the header. -/
theorem At.drop_rest (place : h.At lines) (before : h.index < j) (found : lines.drop j = l :: rest) :
    h.rest.drop (j - (h.index + 1)) = l :: rest := by
  have behind : h.rest = lines.drop (h.index + 1) := by
    rw [← List.drop_drop, place.found]
    rfl
  rw [behind, List.drop_drop, ← found]
  congr 1
  omega

theorem reaches_succ (place : h.At lines) (before : h.index < j)
    (found : lines.drop j = l :: rest) :
    h.Reaches (j + 1) ↔ h.Reaches j ∧ inBody h.line.indent l = true := by
  have here := place.drop_rest before found
  have next : h.rest.take (j + 1 - (h.index + 1)) =
      h.rest.take (j - (h.index + 1)) ++ [l] := by
    have step : j + 1 - (h.index + 1) = j - (h.index + 1) + 1 := by omega
    rw [step, List.take_add_one, ← List.head?_drop, here]
    rfl
  simp only [Reaches, next, List.forall_mem_append, List.forall_mem_singleton]

/-- The range of a definition and its scope end at the same line of code. -/
theorem reaches_iff_le_last (place : h.At lines) (before : h.index < j)
    (found : lines.drop j = l :: rest) (code : l.isCode = true) :
    h.Reaches (j + 1) ↔ j ≤ h.last := by
  have extent : j - (h.index + 1) < (bodyOf h.line.indent h.rest).length ↔
      ∀ x ∈ h.rest.take (j - (h.index + 1) + 1), inBody h.line.indent x = true :=
    lt_bodyOf_length (place.drop_rest before found) code
  have step : j + 1 - (h.index + 1) = j - (h.index + 1) + 1 := by omega
  rw [Reaches, step, ← extent, last]
  omega

end Header

/-! ### The open scopes -/

/-- What a bound leaves of a list whose depth grows inwards is what is less deep. -/
theorem dropWhile_eq_filter {α : Type} {depth : α → Nat} {xs : List α}
    (inward : xs.Pairwise fun a b => depth b < depth a) (bound : Nat) :
    xs.dropWhile (bound ≤ depth ·) = xs.filter (depth · < bound) := by
  induction xs with
  | nil => rfl
  | cons a rest ih =>
    obtain ⟨deeper, later⟩ := List.pairwise_cons.mp inward
    by_cases left : bound ≤ depth a
    · rw [List.dropWhile_cons_of_pos (by simpa using left),
        List.filter_cons_of_neg (by simpa using left), ih later]
    · have all : ∀ x ∈ a :: rest, decide (depth x < bound) = true := by
        intro x member
        rw [decide_eq_true_eq]
        rcases List.mem_cons.mp member with rfl | inRest
        · omega
        · have := deeper x inRest
          omega
      rw [List.dropWhile_cons_of_neg (by simpa using left), List.filter_eq_self.mpr all]

theorem mem_dropWhile {α : Type} {depth : α → Nat} {xs : List α}
    (inward : xs.Pairwise fun a b => depth b < depth a) (bound : Nat) (x : α) :
    x ∈ xs.dropWhile (bound ≤ depth ·) ↔ x ∈ xs ∧ depth x < bound := by
  rw [dropWhile_eq_filter inward, List.mem_filter, decide_eq_true_eq]

/-- The headers whose scopes are open before the line with index `j`, innermost first. -/
structure Scoped (lines : List ScannedLine) (j : Nat) (opened : List Header) : Prop where
  mem_iff : ∀ h, h ∈ opened ↔ h.At lines ∧ h.index < j ∧ h.Reaches j
  inward : opened.Pairwise fun a b => b.index < a.index ∧ b.line.indent < a.line.indent

/-- The headers of the definitions around a header, innermost first. -/
def Header.enclosing (lines : List ScannedLine) (h : Header) : List Header :=
  ((headersFrom 0 lines).filter fun a => a.index < h.index && h.index ≤ a.last).reverse

namespace Scoped

variable {lines : List ScannedLine} {j : Nat} {opened : List Header} {l : ScannedLine}
  {rest : List ScannedLine}

theorem start (lines : List ScannedLine) : Scoped lines 0 [] :=
  ⟨fun h => by simp, List.Pairwise.nil⟩

/-- A line without code leaves the scopes as they are. -/
theorem skip (scopes : Scoped lines j opened) (found : lines.drop j = l :: rest)
    (noCode : l.isCode = false) : Scoped lines (j + 1) opened := by
  have inside : ∀ indent, inBody indent l = true := by
    intro indent
    simp only [isCode, Bool.and_eq_false_iff, Bool.not_eq_false'] at noCode
    rcases noCode with blank | inString <;> simp [inBody, *]
  refine ⟨fun h => ?_, scopes.inward⟩
  rw [scopes.mem_iff]
  constructor
  · rintro ⟨place, before, reaches⟩
    exact ⟨place, by omega, (Header.reaches_succ place before found).mpr ⟨reaches, inside _⟩⟩
  · rintro ⟨place, before, reaches⟩
    have other : h.index ≠ j := by
      rintro rfl
      have parts := place.found.symm.trans found
      cases parts
      rw [place.isCode] at noCode
      cases noCode
    have before : h.index < j := by omega
    exact ⟨place, before, ((Header.reaches_succ place before found).mp reaches).1⟩

/-- At a line of code the scopes remain whose definitions reach over it. -/
theorem mem_remaining (scopes : Scoped lines j opened) (found : lines.drop j = l :: rest)
    (code : l.isCode = true) (h : Header) :
    h ∈ opened.dropWhile (l.indent ≤ ·.line.indent) ↔
      h.At lines ∧ h.index < j ∧ h.Reaches (j + 1) := by
  have deeper : inBody h.line.indent l = true ↔ h.line.indent < l.indent := by
    simp only [isCode, Bool.and_eq_true, Bool.not_eq_true'] at code
    simp [inBody, code]
  rw [mem_dropWhile (scopes.inward.imp And.right), scopes.mem_iff]
  constructor
  · rintro ⟨⟨place, before, reaches⟩, outside⟩
    exact ⟨place, before,
      (Header.reaches_succ place before found).mpr ⟨reaches, deeper.mpr outside⟩⟩
  · rintro ⟨place, before, reaches⟩
    obtain ⟨reached, inside⟩ := (Header.reaches_succ place before found).mp reaches
    exact ⟨⟨place, before, reached⟩, deeper.mp inside⟩

/-- A line of code that is no header only leaves scopes. -/
theorem pass (scopes : Scoped lines j opened) (found : lines.drop j = l :: rest)
    (code : l.isCode = true) (plain : l.isHeader = false) :
    Scoped lines (j + 1) (opened.dropWhile (l.indent ≤ ·.line.indent)) := by
  refine ⟨fun h => ?_, scopes.inward.sublist (List.dropWhile_sublist _)⟩
  rw [scopes.mem_remaining found code]
  constructor
  · rintro ⟨place, before, reaches⟩
    exact ⟨place, by omega, reaches⟩
  · rintro ⟨place, before, reaches⟩
    have other : h.index ≠ j := by
      rintro rfl
      have parts := place.found.symm.trans found
      cases parts
      rw [place.header] at plain
      cases plain
    exact ⟨place, by omega, reaches⟩

/-- A header leaves scopes and opens its own. -/
theorem enter (scopes : Scoped lines j opened) (found : lines.drop j = l :: rest)
    (header : l.isHeader = true) :
    Scoped lines (j + 1) (⟨j, l, rest⟩ :: opened.dropWhile (l.indent ≤ ·.line.indent)) := by
  have own : Header.At lines ⟨j, l, rest⟩ := ⟨found, header⟩
  have remaining := scopes.mem_remaining found own.isCode
  refine ⟨fun h => ?_, List.pairwise_cons.mpr ⟨fun h member => ?_, ?_⟩⟩
  · rw [List.mem_cons, remaining]
    constructor
    · rintro (rfl | ⟨place, before, reaches⟩)
      · exact ⟨own, Nat.lt_succ_self _, by simp [Header.Reaches]⟩
      · exact ⟨place, by omega, reaches⟩
    · rintro ⟨place, before, reaches⟩
      by_cases here : h.index = j
      · exact Or.inl (place.ext own here)
      · exact Or.inr ⟨place, by omega, reaches⟩
  · exact ⟨((remaining h).mp member).2.1,
      ((mem_dropWhile (scopes.inward.imp And.right) _ h).mp member).2⟩
  · exact scopes.inward.sublist (List.dropWhile_sublist _)

end Scoped

theorem headersFrom_ascending (index : Nat) (lines : List ScannedLine) :
    (headersFrom index lines).Pairwise fun a b => a.index < b.index := by
  induction lines generalizing index with
  | nil => exact List.Pairwise.nil
  | cons l rest ih =>
    unfold headersFrom
    split
    next =>
      refine List.pairwise_cons.mpr ⟨fun h member => ?_, ih _⟩
      obtain ⟨i, place, _⟩ := mem_headersFrom.mp member
      dsimp only
      omega
    next => exact ih _

namespace Header

variable {lines : List ScannedLine} {a h : Header}

theorem mem_enclosing : a ∈ h.enclosing lines ↔ a.At lines ∧ a.index < h.index ∧
    h.index ≤ a.last := by
  rw [enclosing, List.mem_reverse, List.mem_filter, mem_headers]
  simp only [Bool.and_eq_true, decide_eq_true_eq]

theorem enclosing_inward (lines : List ScannedLine) (h : Header) :
    (h.enclosing lines).Pairwise fun a b => b.index < a.index := by
  rw [enclosing, List.pairwise_reverse]
  exact (headersFrom_ascending 0 lines).filter _

end Header

/-- At a header the scopes that remain are those of the definitions around it. -/
theorem Scoped.enclosing_eq {lines : List ScannedLine} {opened : List Header} {h : Header}
    (scopes : Scoped lines h.index opened) (place : h.At lines) :
    opened.dropWhile (h.line.indent ≤ ·.line.indent) = h.enclosing lines := by
  have inward := Header.enclosing_inward lines h
  have remaining : (opened.dropWhile (h.line.indent ≤ ·.line.indent)).Pairwise
      fun a b => b.index < a.index :=
    (scopes.inward.sublist (List.dropWhile_sublist _)).imp And.left
  have nodup : ∀ {hs : List Header}, hs.Pairwise (fun a b => b.index < a.index) → hs.Nodup :=
    fun sorted => sorted.imp fun less same => absurd (congrArg Header.index same) (by omega)
  refine List.Perm.eq_of_pairwise ?_ remaining inward ?_
  · intro a b _ _ first second
    omega
  · refine (List.perm_ext_iff_of_nodup (nodup remaining) (nodup inward)).mpr fun a => ?_
    rw [scopes.mem_remaining place.found place.isCode, Header.mem_enclosing]
    constructor
    · rintro ⟨outer, before, reaches⟩
      exact ⟨outer, before,
        (Header.reaches_iff_le_last outer before place.found place.isCode).mp reaches⟩
    · rintro ⟨outer, before, inside⟩
      exact ⟨outer, before,
        (Header.reaches_iff_le_last outer before place.found place.isCode).mpr inside⟩

end AutoDoc.ScannedLine
