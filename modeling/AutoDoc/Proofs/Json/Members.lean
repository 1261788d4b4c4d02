import AutoDoc.Json.Record
import AutoDoc.Proofs.Keyed
import AutoDoc.Word

/-!
# Members of objects

What is found under the keys of an object after its members were sorted, or picked out for a record.
A record is read from an object if no field stands twice (`record?_obj_eq_some`), and what stands in
a field is less deep than the record (`depth_of_record?`). The readers of single values read back
what was written.
-/

namespace AutoDoc.Json

/-! ### Sorted members -/

/-- Putting a member changes what stands under its key and nothing else. -/
theorem lookup_putSorted (key other : String) (v : Json) (members : List (String × Json)) :
    (putSorted key v members).lookup other =
      if other = key then some v else members.lookup other := by
  induction members with
  | nil => exact lookup_cons_eq_if other key v []
  | cons member rest ih =>
    rcases member with ⟨k, old⟩
    unfold putSorted
    split
    next here =>
      subst here
      rw [lookup_cons_eq_if, lookup_cons_eq_if]
      split <;> rfl
    next here =>
      split
      · exact lookup_cons_eq_if other key v _
      · rw [lookup_cons_eq_if, lookup_cons_eq_if, ih]
        by_cases first : other = k
        · subst first
          simp [Ne.symm here]
        · rw [if_neg first, if_neg first]

/-- Sorted members are built up from the front. -/
theorem sortMembers_eq (members : List (String × Json)) :
    sortMembers members = members.foldl (fun sorted m => putSorted m.1 m.2 sorted) [] :=
  rfl

/-- Of several values under one key the last one remains. -/
theorem lookup_sortMembers (members : List (String × Json)) (key : String) :
    (sortMembers members).lookup key = members.reverse.lookup key := by
  have folded (sorted : List (String × Json)) :
      (members.foldl (fun sorted m => putSorted m.1 m.2 sorted) sorted).lookup key =
        (members.reverse.lookup key).or (sorted.lookup key) := by
    induction members generalizing sorted with
    | nil => rfl
    | cons member rest ih =>
      rw [List.foldl_cons, ih, List.reverse_cons, List.lookup_append, Option.or_assoc,
        lookup_putSorted, lookup_cons_eq_if]
      split <;> rfl
  rw [sortMembers_eq, folded]
  exact Option.or_none

/-- Where no key stands twice, sorting changes nothing of what is found. -/
theorem lookup_sortMembers_of_nodup {members : List (String × Json)}
    (distinct : (members.map (·.1)).Nodup) (key : String) :
    (sortMembers members).lookup key = members.lookup key := by
  rw [lookup_sortMembers]
  exact lookup_perm distinct (List.reverse_perm members).symm key

theorem mem_putSorted {key : String} {v : Json} {members : List (String × Json)}
    {m : String × Json} (member : m ∈ putSorted key v members) : m = (key, v) ∨ m ∈ members := by
  induction members with
  | nil => exact Or.inl (List.mem_singleton.mp member)
  | cons first rest ih =>
    rcases first with ⟨k, old⟩
    unfold putSorted at member
    split at member
    next =>
      exact (List.mem_cons.mp member).imp_right (List.mem_cons_of_mem _)
    next =>
      split at member
      next => exact List.mem_cons.mp member
      next =>
        rcases List.mem_cons.mp member with rfl | later
        · exact Or.inr List.mem_cons_self
        · exact (ih later).imp_right (List.mem_cons_of_mem _)

theorem mem_sortMembers (members : List (String × Json)) :
    ∀ m ∈ sortMembers members, m ∈ members := by
  have folded (sorted : List (String × Json)) :
      ∀ m ∈ members.foldl (fun sorted m => putSorted m.1 m.2 sorted) sorted,
        m ∈ members ∨ m ∈ sorted := by
    induction members generalizing sorted with
    | nil => exact fun m member => Or.inr member
    | cons first rest ih =>
      intro m member
      rcases ih _ m member with later | here
      · exact Or.inl (List.mem_cons_of_mem _ later)
      · rcases mem_putSorted here with rfl | before
        · exact Or.inl List.mem_cons_self
        · exact Or.inr before
  exact fun m member => (folded [] m member).resolve_right List.not_mem_nil

theorem collapseItems_map {α : Type} (write : α → Json) (as : List α) :
    collapseItems (as.map write) = as.map fun a => (write a).collapse := by
  induction as with
  | nil => rfl
  | cons a rest ih => rw [List.map_cons, collapseItems, ih, List.map_cons]

@[simp] theorem collapse_texts (xs : List String) : (texts xs).collapse = texts xs := by
  rw [texts, collapse, collapseItems_map]
  rfl

/-! ### Readable values -/

theorem membersReadable_eq_all (members : List (String × Json)) :
    membersReadable members = members.all fun m => m.2.readable := by
  induction members with
  | nil => rfl
  | cons m rest ih => rw [membersReadable, ih, List.all_cons]

theorem itemsReadable_map {α : Type} {write : α → Json}
    (readable : ∀ a, (write a).readable = true) (as : List α) :
    itemsReadable (as.map write) = true := by
  induction as with
  | nil => rfl
  | cons a rest ih => rw [List.map_cons, itemsReadable, readable a, ih, Bool.and_true]

@[simp] theorem readable_texts (xs : List String) : (texts xs).readable = true :=
  itemsReadable_map (fun _ => rfl) xs

/-! ### Fields -/

/-- The check whether keys are distinct decides just that. -/
theorem distinctKeys_iff (members : List (String × Json)) :
    distinctKeys members = true ↔ (members.map (·.1)).Nodup := by
  induction members with
  | nil => simp [distinctKeys]
  | cons member rest ih =>
    rcases member with ⟨key, v⟩
    rw [distinctKeys, Bool.and_eq_true, ih, List.map_cons, List.nodup_cons]
    refine and_congr_left fun _ => ?_
    rw [Bool.not_eq_true', List.any_eq_false, List.mem_map]
    exact ⟨fun others ⟨m, member, same⟩ => others m member (by simpa using same),
      fun absent m member same => absent ⟨m, member, by simpa using same⟩⟩

variable {mode : Strictness} {names : List String} {members others fields : List (String × Json)}
  {key : String}

theorem known_cons (names : List String) (key : String) (v : Json) (rest : List (String × Json)) :
    known names ((key, v) :: rest) =
      if key ∈ names then (key, v) :: known names rest else known names rest := by
  simp [known, List.filter_cons]

theorem record?_obj_eq_some :
    record? mode names (.obj members) = some fields ↔
      ((known names members).map (·.1)).Nodup ∧ fields = known names members := by
  rw [record?, ← distinctKeys_iff]
  split
  next distinct => simp [distinct, eq_comm]
  next double => simp [double]

/-- An object whose keys are among the fields of the record, in their order, is all fields. -/
theorem record?_of_sublist (sub : (members.map (·.1)).Sublist names) (distinct : names.Nodup) :
    record? mode names (.obj members) = some members := by
  have all : known names members = members :=
    List.filter_eq_self.mpr fun m member => by simpa using sub.subset (List.mem_map_of_mem member)
  exact record?_obj_eq_some.mpr ⟨all.symm ▸ distinct.sublist sub, all.symm⟩

theorem record?_of_fields (keys : members.map (·.1) = names) (distinct : names.Nodup) :
    record? mode names (.obj members) = some members :=
  record?_of_sublist (keys ▸ List.Sublist.refl _) distinct

/-! ### Depth -/

theorem depth_le_itemsDepth {v : Json} {items : List Json} (member : v ∈ items) :
    v.depth ≤ itemsDepth items := by
  induction items with
  | nil => cases member
  | cons first rest ih =>
    rw [itemsDepth]
    rcases List.mem_cons.mp member with rfl | later
    · exact Nat.le_max_left _ _
    · exact Nat.le_trans (ih later) (Nat.le_max_right _ _)

theorem depth_le_membersDepth {v : Json} {members : List (String × Json)}
    (member : (key, v) ∈ members) : v.depth ≤ membersDepth members := by
  induction members with
  | nil => cases member
  | cons first rest ih =>
    rcases first with ⟨k, w⟩
    rw [membersDepth]
    rcases List.mem_cons.mp member with here | later
    · cases here
      exact Nat.le_max_left _ _
    · exact Nat.le_trans (ih later) (Nat.le_max_right _ _)

/-- What stands in a field of a record is less deep than the record. -/
theorem depth_of_record? {j v : Json} (read : record? mode names j = some fields)
    (found : fields.lookup key = some v) : v.depth < j.depth := by
  have member := mem_of_lookup found
  cases j with
  | obj members =>
    obtain ⟨-, rfl⟩ := record?_obj_eq_some.mp read
    exact Nat.lt_succ_of_le (depth_le_membersDepth (List.mem_of_mem_filter member))
  | arr items =>
    obtain ⟨-, all⟩ := Option.ite_none_right_eq_some.mp read
    cases all
    exact Nat.lt_succ_of_le (depth_le_itemsDepth (List.of_mem_zip member).2)
  | _ => cases read

/-! ### Values read back -/

section

variable {α : Type} {read : Json → Option α} {write : α → Json}

theorem nullable_of_ne_null {v : Json} (there : v ≠ .null) :
    nullable read v = (read v).map some := by
  cases v <;> first | rfl | exact absurd rfl there

theorem nullable_ofOption {o : Option α} (there : ∀ a, write a ≠ .null)
    (back : ∀ a, o = some a → read (write a) = some a) :
    nullable read (ofOption write o) = some o := by
  cases o with
  | none => rfl
  | some a =>
    change nullable read (write a) = _
    rw [nullable_of_ne_null (there a), back a rfl]
    rfl

/-- An optional field that was written, if only as null, is read back. -/
theorem optional_ofOption {name : String} {o : Option α}
    (stands : fields.lookup name = some (ofOption write o)) (there : ∀ a, write a ≠ .null)
    (back : ∀ a, o = some a → read (write a) = some a) :
    Json.optional read name fields = some o := by
  rw [Json.optional, defaulted, stands]
  exact nullable_ofOption there back

theorem required_of_lookup {name : String} {v : Json} {a : α}
    (stands : fields.lookup name = some v) (back : read v = some a) :
    required read name fields = some a := by
  rw [required, stands]
  exact back

/-- One field of a record is read and then the others. -/
theorem read_bind {β : Type} {field : Option α} {others : α → Option β} {a : α} {b : β}
    (first : field = some a) (rest : others a = some b) : (field >>= others) = some b :=
  Option.bind_eq_some_iff.mpr ⟨a, first, rest⟩

theorem all?_map {as : List α} (back : ∀ a ∈ as, read (write a) = some a) :
    all? read (as.map write) = some as := by
  induction as with
  | nil => rfl
  | cons a rest ih =>
    obtain ⟨first, later⟩ := List.forall_mem_cons.mp back
    rw [List.map_cons, all?, first, ih later]
    rfl

theorem list?_map (back : ∀ a, read (write a) = some a) (as : List α) :
    list? read (.arr (as.map write)) = some as :=
  all?_map fun a _ => back a

theorem nullable_list (back : ∀ a, read (write a) = some a) (o : Option (List α)) :
    nullable (list? read) (ofOption (fun as => .arr (as.map write)) o) = some o :=
  nullable_ofOption (fun _ => nofun) fun as _ => list?_map back as

end

@[simp] theorem text?_str (s : String) : text? (.str s) = some s := rfl

@[simp] theorem bool?_bool (b : Bool) : bool? (.bool b) = some b := rfl

@[simp] theorem list?_texts (xs : List String) : list? text? (texts xs) = some xs :=
  list?_map text?_str xs

@[simp] theorem nullable_text (s : String) : nullable text? (.str s) = some (some s) := rfl

@[simp] theorem nullable_str (o : Option String) : nullable text? (ofOption .str o) = some o := by
  cases o <;> rfl

@[simp] theorem nullable_texts (o : Option (List String)) :
    nullable (list? text?) (ofOption texts o) = some o :=
  nullable_ofOption (fun _ => nofun) fun xs _ => list?_texts xs

@[simp] theorem word32?_nat (n : UInt32) : word32? (.nat n.toNat) = some n := by
  have bound : (0 : Int) ≤ n.toNat ∧ (n.toNat : Int) < 4294967296 := by
    have := n.toNat_lt
    omega
  rw [nat, word32?]
  exact (if_pos bound).trans (by simp)

theorem size?_nat {n : Nat} (small : n < Word.limit64) : size? (.nat n) = some n := by
  have bound : (0 : Int) ≤ n ∧ (n : Int) < 18446744073709551616 := by
    unfold Word.limit64 at small
    omega
  rw [nat, size?]
  exact if_pos bound

end AutoDoc.Json
