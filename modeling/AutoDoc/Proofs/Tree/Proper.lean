import AutoDoc.Proofs.Tree.Frame
import AutoDoc.Proofs.Tree.Names
import Mathlib.Data.String.Basic

/-!
# Proper trees

In a proper tree the entries of every directory have names, and these ascend, so that there is one
node under each of them. Putting a node, removing one and leaving links out keep a tree proper; and
what stands at each list of names tells a proper tree from others (`Proper.ext`).
-/

namespace AutoDoc.Node

def Ascending (entries : List (String × Node)) : Prop := entries.Pairwise fun a b => a.1 < b.1

/-- The entries of every directory have names in ascending order. -/
inductive Proper : Node → Prop
  | file (content : ByteArray) : Proper (.file content)
  | link (target : String) : Proper (.link target)
  | dir {entries : List (String × Node)} (ascending : Ascending entries)
      (names : ∀ e ∈ entries, Path.IsName e.1) (below : ∀ e ∈ entries, Proper e.2) :
      Proper (.dir entries)

theorem Proper.empty : Proper Node.empty :=
  .dir List.Pairwise.nil (fun _ absent => absurd absent List.not_mem_nil)
    fun _ absent => absurd absent List.not_mem_nil

mutual

def isProper : Node → Bool
  | .dir entries => properEntries entries
  | _ => true

/-- The check whether entries have names in ascending order and hold proper trees. -/
def properEntries : List (String × Node) → Bool
  | [] => true
  | (name, node) :: rest =>
    decide (Path.IsName name) && rest.all (fun e => decide (name < e.1)) && isProper node &&
      properEntries rest

end

mutual

theorem Proper.of_isProper : (node : Node) → node.isProper = true → node.Proper
  | .file content, _ => .file content
  | .link target, _ => .link target
  | .dir entries, check =>
    let ⟨ascending, names, below⟩ := properEntries_sound entries check
    .dir ascending names below

theorem properEntries_sound : (entries : List (String × Node)) → properEntries entries = true →
    Ascending entries ∧ (∀ e ∈ entries, Path.IsName e.1) ∧ ∀ e ∈ entries, e.2.Proper
  | [], _ => ⟨List.Pairwise.nil, fun _ absent => (by cases absent), fun _ absent => (by cases absent)⟩
  | (name, node) :: rest, check => by
    simp only [properEntries, Bool.and_eq_true, decide_eq_true_eq, List.all_eq_true] at check
    obtain ⟨⟨⟨valid, first⟩, here⟩, later⟩ := check
    obtain ⟨ascending, names, below⟩ := properEntries_sound rest later
    exact ⟨List.pairwise_cons.mpr ⟨first, ascending⟩, List.forall_mem_cons.mpr ⟨valid, names⟩,
      List.forall_mem_cons.mpr ⟨Proper.of_isProper node here, below⟩⟩

end

/-- The test on trees is complete, so that witnesses can be checked by running it. -/
theorem Proper.isProper {node : Node} (proper : node.Proper) : node.isProper = true := by
  induction proper with
  | file content => rfl
  | link target => rfl
  | @dir entries ascending names _ ih =>
    unfold Node.isProper
    induction entries with
    | nil => rfl
    | cons entry rest inner =>
      obtain ⟨first, later⟩ := List.pairwise_cons.mp ascending
      obtain ⟨valid, others⟩ := List.forall_mem_cons.mp names
      obtain ⟨here, below⟩ := List.forall_mem_cons.mp ih
      simp only [properEntries, Bool.and_eq_true, decide_eq_true_eq, List.all_eq_true]
      exact ⟨⟨⟨valid, first⟩, here⟩, inner later others
        (fun e member => (Proper.of_isProper e.2 (below e member))) below⟩

instance : DecidablePred Proper := fun node =>
  decidable_of_iff (node.isProper = true) ⟨Proper.of_isProper node, Proper.isProper⟩

/-! ### Entries -/

/-- Entries in ascending order are all found under their names. -/
theorem Ascending.lookup {n : String} {node : Node} {entries : List (String × Node)}
    (ascending : Ascending entries) (member : (n, node) ∈ entries) :
    entries.lookup n = some node :=
  (lookup_eq_some_iff (List.pairwise_map.mpr (ascending.imp fun before => ne_of_lt before))).mpr
    member

theorem mem_putEntry {name : String} {node : Node} {entries : List (String × Node)}
    {e : String × Node} (member : e ∈ putEntry name node entries) :
    e = (name, node) ∨ e ∈ entries := by
  induction entries with
  | nil => exact Or.inl (List.mem_singleton.mp member)
  | cons entry rest ih =>
    rcases entry with ⟨m, old⟩
    unfold putEntry at member
    split at member
    · exact (List.mem_cons.mp member).imp_right (List.mem_cons_of_mem _)
    · split at member
      · exact List.mem_cons.mp member
      · rcases List.mem_cons.mp member with here | later
        · exact Or.inr (here ▸ List.mem_cons_self)
        · exact (ih later).imp_right (List.mem_cons_of_mem _)

/-- Entries stay in order when one is put among them. -/
theorem Ascending.putEntry {entries : List (String × Node)} (ascending : Ascending entries)
    (name : String) (node : Node) : Ascending (putEntry name node entries) := by
  induction entries with
  | nil => exact List.pairwise_singleton _ _
  | cons entry rest ih =>
    rcases entry with ⟨m, old⟩
    obtain ⟨first, later⟩ := List.pairwise_cons.mp ascending
    unfold Node.putEntry
    split
    next same =>
      subst same
      exact List.pairwise_cons.mpr ⟨first, later⟩
    next other =>
      split
      next before =>
        refine List.pairwise_cons.mpr ⟨?_, ascending⟩
        intro e member
        rcases List.mem_cons.mp member with rfl | below
        · exact before
        · exact lt_trans before (first e below)
      next behind =>
        refine List.pairwise_cons.mpr ⟨?_, ih later⟩
        intro e member
        rcases mem_putEntry member with rfl | below
        · exact lt_of_le_of_ne (not_lt.mp behind) other
        · exact first e below

theorem lookup_removeEntry (name n : String) (entries : List (String × Node)) :
    (removeEntry name entries).lookup n = if n = name then none else entries.lookup n := by
  unfold removeEntry
  rw [lookup_filter_key (fun m => m != name) n entries]
  by_cases same : n = name <;> simp [same]

/-! ### Operations on places -/

section

variable {top new : Node} {place : List String}

theorem Proper.child {entries : List (String × Node)} {n : String} {child : Node}
    (proper : Proper (.dir entries)) (found : entries.lookup n = some child) :
    Path.IsName n ∧ Proper child := by
  cases proper with
  | dir _ names below =>
    exact ⟨names _ (mem_of_lookup found), below _ (mem_of_lookup found)⟩

/-- What stands in a proper tree is proper, and so are the names that lead to it. -/
theorem Proper.get? {node : Node} (proper : Proper top) (held : top.get? place = some node) :
    Proper node ∧ ∀ n ∈ place, Path.IsName n := by
  induction place generalizing top with
  | nil =>
    obtain rfl : top = node := by simpa [Node.get?] using held
    exact ⟨proper, fun _ absent => absurd absent List.not_mem_nil⟩
  | cons n rest ih =>
    obtain ⟨entries, child, rfl, found, below⟩ := get?_cons_eq_some held
    obtain ⟨name, inside⟩ := proper.child found
    obtain ⟨inner, valid⟩ := ih inside below
    exact ⟨inner, List.forall_mem_cons.mpr ⟨name, valid⟩⟩

theorem Proper.putEntry {entries : List (String × Node)} {name : String} {node : Node}
    (proper : Proper (.dir entries)) (valid : Path.IsName name) (inner : Proper node) :
    Proper (.dir (putEntry name node entries)) := by
  cases proper with
  | dir ascending names below =>
    refine .dir (ascending.putEntry name node) ?_ ?_
    · intro e member
      rcases mem_putEntry member with rfl | old
      · exact valid
      · exact names e old
    · intro e member
      rcases mem_putEntry member with rfl | old
      · exact inner
      · exact below e old

/-- A proper tree stays proper when a proper node is put under valid names. -/
theorem Proper.put (proper : Proper top) (valid : ∀ n ∈ place, Path.IsName n)
    (inner : Proper new) : Proper (top.put place new) := by
  induction place generalizing top with
  | nil => simpa [Node.put] using inner
  | cons n rest ih =>
    obtain ⟨name, names⟩ := List.forall_mem_cons.mp valid
    cases top with
    | file content => cases rest <;> exact proper
    | link target => cases rest <;> exact proper
    | dir entries =>
      cases found : entries.lookup n with
      | some child =>
        rw [put_cons found]
        exact proper.putEntry name (ih (proper.child found).2 names)
      | none =>
        cases rest with
        | nil => exact proper.putEntry name inner
        | cons m more =>
          unfold Node.put
          rw [found]
          exact proper

theorem Proper.removeEntry {entries : List (String × Node)} (proper : Proper (.dir entries))
    (name : String) : Proper (.dir (removeEntry name entries)) := by
  cases proper with
  | dir ascending names below =>
    exact .dir (ascending.sublist List.filter_sublist)
      (fun e member => names e (List.mem_of_mem_filter member))
      fun e member => below e (List.mem_of_mem_filter member)

theorem Proper.erase (proper : Proper top) : Proper (top.erase place) := by
  induction place generalizing top with
  | nil => simpa [Node.erase] using proper
  | cons n rest ih =>
    cases top with
    | file content => cases rest <;> exact proper
    | link target => cases rest <;> exact proper
    | dir entries =>
      cases rest with
      | nil => exact proper.removeEntry n
      | cons m more =>
        unfold Node.erase
        split
        next child found =>
          obtain ⟨name, inside⟩ := proper.child found
          exact proper.putEntry name (ih inside)
        next => exact proper

end

/-! ### Equal trees -/

theorem Ascending.nodup {entries : List (String × Node)} (ascending : Ascending entries) :
    entries.Nodup := by
  refine List.nodup_iff_pairwise_ne.mpr (ascending.imp fun {a b} less => ?_)
  rintro rfl
  exact lt_irrefl _ less

/-- Entries in ascending order are told by what is found under each name. -/
theorem Ascending.ext {entries others : List (String × Node)} (ascending : Ascending entries)
    (ascending' : Ascending others) (same : ∀ n, entries.lookup n = others.lookup n) :
    entries = others := by
  have members : ∀ e, e ∈ entries ↔ e ∈ others := fun e =>
    ⟨fun member => mem_of_lookup ((same e.1).symm.trans (ascending.lookup member)),
      fun member => mem_of_lookup ((same e.1).trans (ascending'.lookup member))⟩
  have perm := (List.perm_ext_iff_of_nodup ascending.nodup ascending'.nodup).mpr members
  exact perm.eq_of_pairwise (fun a b _ _ less more => absurd (less.trans more) (lt_irrefl a.1))
    ascending ascending'

theorem kindAt_cons (n : String) (rest : List String) (entries : List (String × Node)) :
    (Node.dir entries).kindAt (n :: rest) =
      (entries.lookup n).bind fun child => child.kindAt rest := by
  rw [kindAt, get?_cons_dir]
  cases entries.lookup n <;> rfl

theorem contentAt_cons (n : String) (rest : List String) (entries : List (String × Node)) :
    (Node.dir entries).contentAt (n :: rest) =
      (entries.lookup n).bind fun child => child.contentAt rest := by
  rw [contentAt, get?_cons_dir]
  cases entries.lookup n <;> rfl

/-- A proper tree is told by the kinds of its nodes and the bytes of its files. -/
theorem Proper.ext {top other : Node} (proper : top.Proper) (proper' : other.Proper)
    (kinds : ∀ names, other.kindAt names = top.kindAt names)
    (contents : ∀ names, other.contentAt names = top.contentAt names) : other = top := by
  induction proper generalizing other with
  | file content =>
    have here := kinds []
    have bytes := contents []
    cases other <;> simp_all [kindAt, contentAt, Node.get?, kind, content?]
  | link target =>
    have here := kinds []
    cases other <;> simp_all [kindAt, Node.get?, kind]
  | @dir entries ascending names below ih =>
    have here := kinds []
    cases proper' with
    | file content => simp [kindAt, Node.get?, kind] at here
    | link target => simp [kindAt, Node.get?, kind] at here
    | @dir others ascending' names' below' =>
      congr 1
      refine ascending'.ext ascending fun n => ?_
      have kinds' := fun rest => kinds (n :: rest)
      have contents' := fun rest => contents (n :: rest)
      simp only [kindAt_cons, contentAt_cons] at kinds' contents'
      cases found : entries.lookup n with
      | none =>
        rw [found] at kinds'
        have absent := kinds' []
        rcases other : others.lookup n with _ | child
        · rfl
        · rw [other] at absent
          simp [kindAt, Node.get?] at absent
      | some child =>
        cases found' : others.lookup n with
        | none =>
          have absent := kinds' []
          simp [found, found', kindAt, Node.get?] at absent
        | some child' =>
          rw [found, found'] at kinds' contents'
          congr 1
          exact ih _ (mem_of_lookup found) (below' _ (mem_of_lookup found')) kinds' contents'

/-! ### Leaving links out -/

mutual

def withoutLinks : Node → Node
  | .dir entries => .dir (entriesWithoutLinks entries)
  | node => node

def entriesWithoutLinks : List (String × Node) → List (String × Node)
  | [] => []
  | (_, .link _) :: rest => entriesWithoutLinks rest
  | (name, node) :: rest => (name, withoutLinks node) :: entriesWithoutLinks rest

end

theorem entriesWithoutLinks_cons (name : String) (node : Node) (rest : List (String × Node)) :
    entriesWithoutLinks ((name, node) :: rest) =
      if node.isLink then entriesWithoutLinks rest
      else (name, withoutLinks node) :: entriesWithoutLinks rest := by
  cases node <;> simp [entriesWithoutLinks, isLink]

theorem mem_entriesWithoutLinks {entries : List (String × Node)} {e : String × Node}
    (member : e ∈ entriesWithoutLinks entries) :
    ∃ node, (e.1, node) ∈ entries ∧ node.isLink = false ∧ e.2 = withoutLinks node := by
  induction entries with
  | nil => simp [entriesWithoutLinks] at member
  | cons entry rest ih =>
    have later : e ∈ entriesWithoutLinks rest →
        ∃ node, (e.1, node) ∈ entry :: rest ∧ node.isLink = false ∧ e.2 = withoutLinks node := by
      intro inRest
      obtain ⟨node, below, plain, same⟩ := ih inRest
      exact ⟨node, List.mem_cons_of_mem _ below, plain, same⟩
    rcases entry with ⟨m, node⟩
    rw [entriesWithoutLinks_cons] at member
    split at member
    · exact later member
    next plain =>
      rcases List.mem_cons.mp member with rfl | below
      · exact ⟨node, List.mem_cons_self, by simpa using plain, rfl⟩
      · exact later below

theorem lookup_entriesWithoutLinks {entries : List (String × Node)} {n : String} {child : Node}
    (found : entries.lookup n = some child) (plain : child.isLink = false) :
    (entriesWithoutLinks entries).lookup n = some (withoutLinks child) := by
  induction entries with
  | nil => cases found
  | cons entry rest ih =>
    rcases entry with ⟨m, node⟩
    rw [lookup_cons_eq_if] at found
    rw [entriesWithoutLinks_cons]
    by_cases same : n = m
    · rw [if_pos same] at found
      cases found
      rw [plain, if_neg Bool.false_ne_true, lookup_cons_eq_if, if_pos same]
    · rw [if_neg same] at found
      split
      · exact ih found
      · rw [lookup_cons_eq_if, if_neg same]
        exact ih found

theorem Ascending.withoutLinks {entries : List (String × Node)} (ascending : Ascending entries) :
    Ascending (entriesWithoutLinks entries) := by
  induction entries with
  | nil => exact ascending
  | cons entry rest ih =>
    rcases entry with ⟨m, node⟩
    obtain ⟨first, later⟩ := List.pairwise_cons.mp ascending
    rw [entriesWithoutLinks_cons]
    split
    · exact ih later
    · refine List.pairwise_cons.mpr ⟨?_, ih later⟩
      intro e member
      obtain ⟨old, below, _⟩ := mem_entriesWithoutLinks member
      exact first (e.1, old) below

theorem Proper.withoutLinks {node : Node} (proper : Proper node) : Proper node.withoutLinks := by
  induction proper with
  | file content => exact .file content
  | link target => exact .link target
  | dir ascending names _ ih =>
    refine .dir ascending.withoutLinks ?_ ?_
    · intro e member
      obtain ⟨old, below, _⟩ := mem_entriesWithoutLinks member
      exact names (e.1, old) below
    · intro e member
      obtain ⟨old, below, _, same⟩ := mem_entriesWithoutLinks member
      rw [same]
      exact ih (e.1, old) below

/-- Without its links a directory has none at any depth. -/
theorem get?_withoutLinks_ne_link {node : Node} (plain : node.isLink = false)
    (names : List String) (target : String) :
    node.withoutLinks.get? names ≠ some (.link target) := by
  induction names generalizing node with
  | nil => cases node <;> simp_all [Node.withoutLinks, Node.get?, isLink]
  | cons n rest ih =>
    intro held
    obtain ⟨entries, child, same, found, below⟩ := get?_cons_eq_some held
    cases node with
    | file content => cases same
    | link target => cases same
    | dir old =>
      cases same
      obtain ⟨before, _, plainBefore, made⟩ := mem_entriesWithoutLinks (mem_of_lookup found)
      dsimp only at made
      rw [made] at below
      exact ih plainBefore below

/-- Under each name stands what stood there, unless it was a link. -/
theorem Ascending.lookup_withoutLinks {entries : List (String × Node)}
    (ascending : Ascending entries) (n : String) : (entriesWithoutLinks entries).lookup n =
      ((entries.lookup n).filter fun child => !child.isLink).map Node.withoutLinks := by
  cases found : entries.lookup n with
  | some child =>
    by_cases plain : child.isLink = false
    · simp [lookup_entriesWithoutLinks found plain, Option.filter_some, plain]
    · -- There is no second entry of this name behind a link that is left out.
      rcases kept : (entriesWithoutLinks entries).lookup n with _ | other
      · simp [Option.filter_some, plain]
      · obtain ⟨node, member, noLink, _⟩ := mem_entriesWithoutLinks (mem_of_lookup kept)
        rw [ascending.lookup member, Option.some.injEq] at found
        exact absurd (found ▸ noLink) plain
  | none =>
    rcases kept : (entriesWithoutLinks entries).lookup n with _ | other
    · rfl
    · obtain ⟨node, member, _⟩ := mem_entriesWithoutLinks (mem_of_lookup kept)
      rw [ascending.lookup member] at found
      cases found

/-- At each list of names stands what stood there, links left out. -/
theorem Proper.get?_withoutLinks {node : Node} (proper : node.Proper) (plain : node.isLink = false)
    (names : List String) : node.withoutLinks.get? names =
      ((node.get? names).filter fun held => !held.isLink).map Node.withoutLinks := by
  induction names generalizing node with
  | nil => simp [Node.get?, Option.filter_some, plain]
  | cons n rest ih =>
    cases proper with
    | file content => rfl
    | link target => rfl
    | dir ascending _ below =>
      rw [Node.withoutLinks, get?_cons_dir, get?_cons_dir, ascending.lookup_withoutLinks]
      rcases found : List.lookup n _ with _ | child
      · rfl
      · cases linked : child.isLink with
        | false =>
          simp only [Option.filter_some, linked, Bool.not_false, if_true, Option.map_some,
            Option.bind_some]
          exact ih (below _ (mem_of_lookup found)) linked
        | true =>
          cases child with
          | link target => cases rest <;> rfl
          | file content => cases linked
          | dir inner => cases linked

theorem kindAt_withoutLinks_dir {node : Node} (proper : node.Proper) (plain : node.isLink = false)
    (names : List String) :
    node.withoutLinks.kindAt names = some .dir ↔ node.kindAt names = some .dir := by
  rw [kindAt, kindAt, proper.get?_withoutLinks plain]
  rcases node.get? names with _ | (_ | _ | _) <;> simp [Option.filter_some, isLink, kind, Node.withoutLinks]

theorem contentAt_withoutLinks {node : Node} (proper : node.Proper) (plain : node.isLink = false)
    (names : List String) : node.withoutLinks.contentAt names = node.contentAt names := by
  rw [contentAt, contentAt, proper.get?_withoutLinks plain]
  rcases node.get? names with _ | (_ | _ | _) <;> 
    simp [Option.filter_some, isLink, content?, Node.withoutLinks]

end AutoDoc.Node
