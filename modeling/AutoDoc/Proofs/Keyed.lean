import Mathlib.Data.List.Perm.Basic

/-!
# Lists of values under keys

The entries of a directory and the members of an object are lists of values with texts as keys, in
which the first value under a key counts. Where no key stands twice, what is found under a key is
what stands there (`lookup_eq_some_iff`), in whatever order (`lookup_perm`).
-/

namespace AutoDoc

variable {α : Type} {entries others : List (String × α)} {key : String} {v : α}

theorem lookup_cons_eq_if (key other : String) (v : α) (rest : List (String × α)) :
    ((other, v) :: rest).lookup key = if key = other then some v else rest.lookup key := by
  rw [List.lookup_cons]
  by_cases same : key = other
  · simp [same]
  · rw [if_neg same, beq_eq_false_iff_ne.mpr same]

theorem mem_of_lookup (found : entries.lookup key = some v) : (key, v) ∈ entries := by
  obtain ⟨before, after, rfl, -⟩ := List.lookup_eq_some_iff.mp found
  exact List.mem_append_right _ List.mem_cons_self

theorem lookup_eq_some_iff (distinct : (entries.map (·.1)).Nodup) :
    entries.lookup key = some v ↔ (key, v) ∈ entries := by
  refine ⟨mem_of_lookup, fun member => ?_⟩
  obtain ⟨before, after, rfl⟩ := List.append_of_mem member
  refine List.lookup_eq_some_iff.mpr ⟨before, after, rfl, fun e here => bne_iff_ne.mpr ?_⟩
  rw [List.map_append, List.nodup_append] at distinct
  exact (distinct.2.2 e.1 (List.mem_map_of_mem here) key (by simp)).symm

theorem lookup_perm (distinct : (entries.map (·.1)).Nodup) (perm : entries.Perm others)
    (key : String) : others.lookup key = entries.lookup key := by
  have distinct' : (others.map (·.1)).Nodup := (perm.map _).nodup_iff.mp distinct
  ext v
  rw [lookup_eq_some_iff distinct, lookup_eq_some_iff distinct', perm.mem_iff]

theorem lookup_eq_none_iff : entries.lookup key = none ↔ key ∉ entries.map (·.1) := by
  rw [List.lookup_eq_none_iff, List.mem_map]
  exact ⟨fun absent ⟨e, member, same⟩ => bne_iff_ne.mp (absent e member) same.symm,
    fun absent e member => bne_iff_ne.mpr fun same => absent ⟨e, member, same.symm⟩⟩

/-- A filter by keys touches nothing under the keys that it keeps. -/
theorem lookup_filter_key (p : String → Bool) (key : String) (entries : List (String × α)) :
    (entries.filter fun e => p e.1).lookup key = if p key then entries.lookup key else none := by
  induction entries with
  | nil => simp
  | cons entry rest ih =>
    rcases entry with ⟨other, v⟩
    rw [List.filter_cons, lookup_cons_eq_if]
    split
    next kept =>
      rw [lookup_cons_eq_if, ih]
      by_cases same : key = other
      · simp [same, show p other = true from kept]
      · simp [same]
    next dropped =>
      rw [ih]
      by_cases same : key = other
      · simp [same, show ¬ p other = true from dropped]
      · simp [same]

end AutoDoc
