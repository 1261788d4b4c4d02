import AutoDoc.Proofs.Json.Members
import AutoDoc.Proofs.Json.RoundTrip

/-!
# Values that survive printing

A value that is plain and not nested too deeply is read back from its compact layout. The lemmas
follow the parts that records are made of, with the depth that they need.
-/

namespace AutoDoc.Json

/-- The value is plain and nested at most `n` deep. -/
structure Printable (n : Nat) (v : Json) : Prop where
  plain : v.isPlain = true
  shallow : v.depth ≤ n

namespace Printable

variable {n : Nat} {v : Json} {α : Type} {write : α → Json}

theorem parse? (printable : Printable 127 v) : parse? v.compact = some v :=
  parse?_compact printable.plain printable.shallow

theorem mono {m : Nat} (printable : Printable n v) (more : n ≤ m) : Printable m v :=
  ⟨printable.plain, Nat.le_trans printable.shallow more⟩

theorem null : Printable (n + 1) .null := ⟨rfl, Nat.le_add_left 1 n⟩

theorem bool (b : Bool) : Printable (n + 1) (.bool b) := ⟨rfl, Nat.le_add_left 1 n⟩

theorem str (s : String) : Printable (n + 1) (.str s) := ⟨rfl, Nat.le_add_left 1 n⟩

theorem nat {k : Nat} (small : k < Word.limit64) : Printable (n + 1) (.nat k) :=
  ⟨isPlain_nat small, Nat.le_add_left 1 n⟩

theorem word32 (k : UInt32) : Printable (n + 1) (.nat k.toNat) :=
  nat (Nat.lt_trans k.toNat_lt (by decide))

theorem ofOption {o : Option α} (inside : ∀ a, Printable (n + 1) (write a)) :
    Printable (n + 1) (ofOption write o) := by
  cases o with
  | none => exact null
  | some a => exact inside a

theorem obj_nil : Printable (n + 1) (.obj []) := ⟨rfl, Nat.le_add_left 1 n⟩

theorem obj_cons {key : String} {members : List (String × Json)} (here : Printable n v)
    (rest : Printable (n + 1) (.obj members)) : Printable (n + 1) (.obj ((key, v) :: members)) where
  plain := Bool.and_eq_true_iff.mpr ⟨here.plain, rest.plain⟩
  shallow := Nat.succ_le_succ
    (Nat.max_le.mpr ⟨here.shallow, Nat.le_of_succ_le_succ rest.shallow⟩)

theorem obj {members : List (String × Json)} (inside : ∀ m ∈ members, Printable n m.2) :
    Printable (n + 1) (.obj members) := by
  induction members with
  | nil => exact obj_nil
  | cons m rest ih =>
    obtain ⟨here, later⟩ := List.forall_mem_cons.mp inside
    exact obj_cons here (ih later)

theorem arr_map (inside : ∀ a, Printable n (write a)) (as : List α) :
    Printable (n + 1) (.arr (as.map write)) := by
  induction as with
  | nil => exact ⟨rfl, Nat.le_add_left 1 n⟩
  | cons a rest ih =>
    exact ⟨Bool.and_eq_true_iff.mpr ⟨(inside a).plain, ih.plain⟩,
      Nat.succ_le_succ (Nat.max_le.mpr ⟨(inside a).shallow, Nat.le_of_succ_le_succ ih.shallow⟩)⟩

theorem texts (xs : List String) : Printable (n + 2) (texts xs) := arr_map str xs

end Printable

end AutoDoc.Json
