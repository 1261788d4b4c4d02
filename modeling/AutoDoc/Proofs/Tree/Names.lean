import AutoDoc.Tree.Path
import Mathlib.Data.List.Basic
import Mathlib.Data.List.DropRight

/-!
# Names behind a path

A name is what an entry of a directory can be called. Names that are joined to a path stand in its
parts one for one behind those that were there (`parts_joinNames`), so different names make
different paths (`joinNames_injective`).
-/

namespace AutoDoc.Path

/-- A text that can be the name of an entry. -/
def IsName (n : String) : Prop := n ≠ "" ∧ n ≠ "." ∧ n ≠ ".." ∧ '/' ∉ n.toList

instance (n : String) : Decidable (IsName n) := inferInstanceAs (Decidable (_ ∧ _ ∧ _ ∧ _))

/-! ### Pieces between slashes -/

theorem splitSlash_ne_nil (cs : List Char) : splitSlash cs ≠ [] := by
  cases cs with
  | nil => simp [splitSlash]
  | cons c rest =>
    unfold splitSlash
    split
    · simp
    · split <;> simp

theorem splitSlash_of_not_mem {cs : List Char} (slash : '/' ∉ cs) : splitSlash cs = [cs] := by
  induction cs with
  | nil => rfl
  | cons c rest ih =>
    simp only [List.mem_cons, not_or] at slash
    rw [splitSlash, if_neg (Ne.symm slash.1), ih slash.2]

theorem splitSlash_append (a b : List Char) :
    splitSlash (a ++ '/' :: b) = splitSlash a ++ splitSlash b := by
  induction a with
  | nil => simp [splitSlash]
  | cons c rest ih =>
    rw [List.cons_append, splitSlash, splitSlash, ih]
    split
    · rfl
    · cases pieces : splitSlash rest with
      | nil => exact absurd pieces (splitSlash_ne_nil rest)
      | cons first more => rfl

/-- No piece between slashes has a slash. -/
theorem slash_not_mem_piece {cs piece : List Char} (member : piece ∈ splitSlash cs) :
    '/' ∉ piece := by
  induction cs generalizing piece with
  | nil =>
    rw [splitSlash, List.mem_singleton] at member
    simp [member]
  | cons c rest ih =>
    unfold splitSlash at member
    split at member
    · rcases List.mem_cons.mp member with rfl | later
      · simp
      · exact ih later
    next other =>
      cases pieces : splitSlash rest with
      | nil => exact absurd pieces (splitSlash_ne_nil rest)
      | cons first more =>
        rw [pieces] at member ih
        rcases List.mem_cons.mp member with rfl | later
        · simp [Ne.symm other, ih List.mem_cons_self]
        · exact ih (List.mem_cons_of_mem _ later)

/-! ### Parts -/

theorem partOf?_toList {n : String} (name : IsName n) : partOf? n.toList = some (.name n) := by
  obtain ⟨some, dot, dots, _⟩ := name
  have spelled : ∀ {cs : List Char}, n ≠ String.ofList cs → n.toList ≠ cs := fun other same =>
    other (by rw [← same, String.ofList_toList])
  rw [partOf?, if_neg, if_neg (spelled dot), if_neg (spelled dots), String.ofList_toList]
  rw [List.isEmpty_iff]
  exact spelled some

theorem isName_of_partOf? {piece : List Char} {n : String} (slash : '/' ∉ piece)
    (part : partOf? piece = some (.name n)) : IsName n := by
  unfold partOf? at part
  split at part
  · cases part
  next some =>
    split at part
    · cases part
    next dot =>
      split at part
      · cases part
      next dots =>
        cases part
        have spelled : ∀ {cs : List Char}, piece ≠ cs → String.ofList piece ≠ String.ofList cs :=
          fun other same => other (by simpa using congrArg String.toList same)
        exact ⟨spelled (List.isEmpty_iff.not.mp some), spelled dot, spelled dots,
          by rwa [String.toList_ofList]⟩

/-- The names among the parts of a path can be names of entries. -/
theorem isName_of_mem_parts {path n : String} (member : Part.name n ∈ (parse path).parts) :
    IsName n := by
  obtain ⟨piece, inPieces, part⟩ := List.mem_filterMap.mp member
  exact isName_of_partOf? (slash_not_mem_piece inPieces) part

theorem parts_name {n : String} (name : IsName n) : (parse n).parts = [.name n] := by
  rw [parse, splitSlash_of_not_mem name.2.2.2, List.filterMap_cons_some (partOf?_toList name)]
  rfl

theorem components_name {n : String} (name : IsName n) : components n = [.name n] := by
  unfold components
  dsimp only
  rw [parts_name name]
  cases (parse n).absolute <;> rfl

/-- A relative path of one component is written as a name with nothing but slashes and dots behind
it. -/
theorem parts_of_components {path n : String} (relative : (parse path).absolute = false)
    (single : components path = [.name n]) :
    ∃ dots, (parse path).parts = .name n :: List.replicate dots .current := by
  unfold components at single
  dsimp only at single
  rw [relative] at single
  rcases parts : (parse path).parts with _ | ⟨part, rest⟩
  · rw [parts] at single
    cases single
  · rw [parts] at single
    have plain : part ≠ .current := by
      rintro rfl
      cases single
    have kept : part :: rest.filter (· != .current) = [.name n] := by
      cases part with
      | current => exact absurd rfl plain
      | parent => exact single
      | name m => exact single
    obtain ⟨rfl, none⟩ := List.cons.inj kept
    refine ⟨rest.length, ?_⟩
    rw [← List.eq_replicate_length.mpr]
    intro other member
    simpa using List.filter_eq_nil_iff.mp none other member

/-! ### Parents -/

/-- Parts that are written out are read back. -/
theorem parts_textOf {parts : List Part} (names : ∀ n, Part.name n ∈ parts → IsName n) :
    (parse (textOf parts)).parts = parts := by
  have one : ∀ part ∈ parts, ∃ text : String, textOf [part] = text ∧ '/' ∉ text.toList ∧
      partOf? text.toList = some part := by
    intro part member
    cases part with
    | current => exact ⟨".", rfl, by decide, rfl⟩
    | parent => exact ⟨"..", rfl, by decide, rfl⟩
    | name n =>
      have name := names n member
      exact ⟨n, by simp [textOf], name.2.2.2, partOf?_toList name⟩
  have slash : "/".toList = ['/'] := rfl
  simp only [parse]
  induction parts with
  | nil => rfl
  | cons part rest ih =>
    obtain ⟨⟨text, rfl, noSlash, reads⟩, others⟩ := List.forall_mem_cons.mp one
    have later := ih (fun n member => names n (List.mem_cons_of_mem _ member)) others
    cases rest with
    | nil => rw [splitSlash_of_not_mem noSlash, List.filterMap_cons_some reads]; rfl
    | cons next more =>
      have whole : (textOf (part :: next :: more)).toList =
          (textOf [part]).toList ++ '/' :: (textOf (next :: more)).toList := by
        simp [textOf, slash, String.toList_intercalate]
      rw [whole, splitSlash_append, List.filterMap_append, later, splitSlash_of_not_mem noSlash,
        List.filterMap_cons_some reads]
      rfl

theorem trimDots_eq_rdropWhile (parts : List Part) :
    trimDots parts = parts.rdropWhile (· == .current) := rfl

theorem prefix_trimDots (parts : List Part) : trimDots parts <+: parts := by
  rw [trimDots_eq_rdropWhile]
  exact List.rdropWhile_prefix _ _

theorem eq_current_of_trimDots {parts : List Part} (none : trimDots parts = []) :
    ∀ part ∈ parts, part = .current := by
  rw [trimDots_eq_rdropWhile, List.rdropWhile_eq_nil_iff] at none
  simpa using none

/-- The parts of a parent are some of the first parts of a path. -/
theorem parts_parent (path : String) : (parse (parent path)).parts <+: (parse path).parts := by
  have trimmed := prefix_trimDots (parse path).parts
  have above := List.dropLast_prefix (trimDots (parse path).parts)
  unfold parent
  dsimp only
  split
  next onlyDots =>
    -- All that stands above is dots, and one of them is left.
    obtain ⟨none, long⟩ := Bool.and_eq_true_iff.mp onlyDots
    have dots := eq_current_of_trimDots (List.isEmpty_iff.mp none)
    rcases parts : trimDots (parse path).parts with _ | ⟨first, _ | ⟨second, rest⟩⟩
    · simp [parts] at long
    · simp [parts] at long
    · obtain rfl : first = .current := dots first (by simp [parts])
      rw [parts] at trimmed
      refine List.IsPrefix.trans ?_ trimmed
      exact List.prefix_append [Part.current] (second :: rest)
  next =>
    have before := ((prefix_trimDots _).trans above).trans trimmed
    rw [parts_textOf fun n member => isName_of_mem_parts (before.subset member)]
    exact before

/-! ### Joining -/

theorem absolute_name {n : String} (name : IsName n) : (parse n).absolute = false := by
  rw [parse, beq_eq_false_iff_ne]
  exact fun first => name.2.2.2 (List.mem_of_head? first)

theorem join_relative {base path : String} (written : base ≠ "")
    (relative : (parse path).absolute = false) :
    join base path =
      if base.toList.getLast? == some '/' then base ++ path else base ++ "/" ++ path := by
  have relative : (path.toList.head? == some '/') = false := relative
  have spelled : base.isEmpty = false := by simpa using written
  rw [join, relative, spelled]
  rfl

/-- The parts of a path that is joined to another stand behind the parts of that one. -/
theorem parts_join_relative {base path : String} (written : base ≠ "")
    (relative : (parse path).absolute = false) :
    (parse (join base path)).parts = (parse base).parts ++ (parse path).parts := by
  rw [join_relative written relative]
  simp only [parse]
  split
  next slash =>
    obtain ⟨before, ends⟩ := List.getLast?_eq_some_iff.mp (beq_iff_eq.mp slash)
    rw [String.toList_append, ends, List.append_assoc, List.singleton_append, splitSlash_append,
      splitSlash_append, List.filterMap_append, List.filterMap_append]
    simp [splitSlash, partOf?]
  next =>
    have parts : (base ++ "/" ++ path).toList = base.toList ++ '/' :: path.toList := by simp
    rw [parts, splitSlash_append, List.filterMap_append]

/-- A name that is joined to a path is its last part. -/
theorem parts_join {base n : String} (written : base ≠ "") (name : IsName n) :
    (parse (join base n)).parts = (parse base).parts ++ [.name n] := by
  rw [parts_join_relative written (absolute_name name), parts_name name]

theorem join_ne_empty {base path : String} (written : base ≠ "")
    (relative : (parse path).absolute = false) : join base path ≠ "" := by
  rw [join_relative written relative]
  split <;> simp [written]

theorem absolute_join {base path : String} (written : base ≠ "")
    (relative : (parse path).absolute = false) :
    (parse (join base path)).absolute = (parse base).absolute := by
  obtain ⟨c, rest, first⟩ : ∃ c rest, base.toList = c :: rest :=
    List.exists_cons_of_ne_nil (by simpa using written)
  rw [join_relative written relative]
  simp only [parse]
  split <;> simp [first]

theorem slashAtEnd_join {base n : String} (written : base ≠ "") (name : IsName n) :
    (parse (join base n)).slashAtEnd = false := by
  have last : n.toList ≠ [] := by simpa using name.1
  have ends : (join base n).toList.getLast? = n.toList.getLast? := by
    rw [join_relative written (absolute_name name)]
    split <;> rw [String.toList_append, List.getLast?_append_of_ne_nil _ last]
  rw [parse, ends, beq_eq_false_iff_ne]
  exact fun slash => name.2.2.2 (List.mem_of_getLast? slash)

theorem joinNames_concat (base : String) (names : List String) (n : String) :
    joinNames base (names ++ [n]) = join (joinNames base names) n := by
  rw [joinNames, List.foldl_append]
  rfl

theorem joinNames_ne_empty {base : String} {names : List String} (written : base ≠ "")
    (valid : ∀ n ∈ names, IsName n) : joinNames base names ≠ "" := by
  induction names generalizing base with
  | nil => exact written
  | cons n rest ih =>
    obtain ⟨name, others⟩ := List.forall_mem_cons.mp valid
    exact ih (join_ne_empty written (absolute_name name)) others

/-- Names behind a path are its last parts. -/
theorem parts_joinNames {base : String} {names : List String} (written : base ≠ "")
    (valid : ∀ n ∈ names, IsName n) :
    (parse (joinNames base names)).parts = (parse base).parts ++ names.map .name := by
  induction names generalizing base with
  | nil => simp [joinNames]
  | cons n rest ih =>
    have name := valid n List.mem_cons_self
    have later := ih (join_ne_empty written (absolute_name name)) fun m member =>
      valid m (List.mem_cons_of_mem _ member)
    rw [show joinNames base (n :: rest) = joinNames (join base n) rest from rfl, later,
      parts_join written name, List.append_assoc]
    rfl

theorem absolute_joinNames {base : String} {names : List String} (written : base ≠ "")
    (valid : ∀ n ∈ names, IsName n) :
    (parse (joinNames base names)).absolute = (parse base).absolute := by
  induction names generalizing base with
  | nil => rfl
  | cons n rest ih =>
    have name := valid n List.mem_cons_self
    have later := ih (join_ne_empty written (absolute_name name)) fun m member =>
      valid m (List.mem_cons_of_mem _ member)
    exact later.trans (absolute_join written (absolute_name name))

theorem slashAtEnd_joinNames {base : String} {names : List String} (written : base ≠ "")
    (below : names ≠ []) (valid : ∀ n ∈ names, IsName n) :
    (parse (joinNames base names)).slashAtEnd = false := by
  induction names generalizing base with
  | nil => exact absurd rfl below
  | cons n rest ih =>
    have name := valid n List.mem_cons_self
    cases rest with
    | nil => exact slashAtEnd_join written name
    | cons m more =>
      exact ih (join_ne_empty written (absolute_name name)) (List.cons_ne_nil _ _)
        fun m member => valid m (List.mem_cons_of_mem _ member)

/-- Different names make different paths. -/
theorem joinNames_injective {base : String} {names others : List String} (written : base ≠ "")
    (valid : ∀ n ∈ names, IsName n) (validOthers : ∀ n ∈ others, IsName n)
    (same : joinNames base names = joinNames base others) : names = others := by
  have parts := congrArg (fun path => (parse path).parts) same
  rw [parts_joinNames written valid, parts_joinNames written validOthers] at parts
  have mapped := List.append_cancel_left parts
  exact List.map_injective_iff.mpr (fun _ _ eq => Part.name.inj eq) mapped

/-! ### Components -/

/-- Joining names to a path appends them to its components. -/
theorem components_joinNames {root : String} (written : root ≠ "")
    (relative : (parse root).absolute = false) {names : List String}
    (valid : ∀ n ∈ names, IsName n) :
    components (joinNames root names) = components root ++ names.map .name := by
  have plain : (names.map Part.name).filter (· != .current) = names.map .name :=
    List.filter_eq_self.mpr fun part member => by
      obtain ⟨n, _, rfl⟩ := List.mem_map.mp member
      rfl
  unfold components
  dsimp only
  rw [parts_joinNames written valid, absolute_joinNames written valid, relative]
  rcases (parse root).parts with _ | ⟨_ | _ | n, rest⟩
  · cases names with
    | nil => rfl
    | cons n rest => exact plain
  all_goals simp [List.filter_append, plain]

/-- A folder of one name adds this name to the components, however it is written. -/
theorem components_join {root folder n : String} (written : root ≠ "")
    (relative : (parse root).absolute = false) (plain : (parse folder).absolute = false)
    (single : components folder = [.name n]) :
    components (join root folder) = components root ++ [.name n] := by
  obtain ⟨dots, parts⟩ := parts_of_components plain single
  unfold components
  dsimp only
  rw [parts_join_relative written plain, absolute_join written plain, relative, parts]
  rcases (parse root).parts with _ | ⟨_ | _ | n, rest⟩ <;> simp

/-- Of the paths behind a root only that of the entry which a folder names is the path of the folder.
-/
theorem same_joinNames {root folder n : String} (written : root ≠ "")
    (relative : (parse root).absolute = false) (plain : (parse folder).absolute = false)
    (single : components folder = [.name n]) {names : List String}
    (valid : ∀ m ∈ names, IsName m) :
    same (joinNames root names) (join root folder) = true ↔ names = [n] := by
  unfold same
  rw [components_joinNames written relative valid, components_join written relative plain single,
    absolute_joinNames written valid, absolute_join written plain, beq_self_eq_true, Bool.true_and,
    beq_iff_eq, List.append_right_inj]
  constructor
  · intro same
    exact List.map_injective_iff.mpr (fun _ _ eq => Part.name.inj eq) (same : _ = [n].map Part.name)
  · rintro rfl
    rfl

/-- A path is shorter than that of what it holds. -/
theorem size_lt_join (base : String) {n : String} (name : IsName n) :
    base.utf8ByteSize < (join base n).utf8ByteSize := by
  have some : 0 < n.utf8ByteSize := by
    rw [Nat.pos_iff_ne_zero]
    simpa using name.1
  by_cases written : base = ""
  · subst written
    simpa [join] using some
  · rw [join_relative written (absolute_name name)]
    split
    · rw [String.utf8ByteSize_append]
      omega
    · rw [String.utf8ByteSize_append, String.utf8ByteSize_append]
      omega

end AutoDoc.Path
