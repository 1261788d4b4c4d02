import AutoDoc.Discovery
import AutoDoc.Proofs.Tree.Walk
import Mathlib.Data.List.Nodup

/-!
# What discovery finds

The discovered paths are the root's path with names behind it (`discover_ok`). They are all
different, each leads to a regular file below the root, and no directory on the way has a name that
the settings leave out.
-/

namespace AutoDoc

namespace Node

/-- A file below a directory is one of its entries or stands below one that is not pruned. -/
theorem mem_filesBelowEntries {pruned : String → Bool} {entries : List (String × Node)}
    {names : List String} :
    names ∈ filesBelowEntries pruned entries ↔ ∃ e ∈ entries,
      (e.2.isFile = true ∧ names = [e.1]) ∨ pruned e.1 = false ∧
        ∃ below ∈ e.2.filesBelow pruned, names = e.1 :: below := by
  induction entries with
  | nil => simp [filesBelowEntries]
  | cons entry rest ih =>
    rcases entry with ⟨name, node⟩
    rw [filesBelowEntries, List.mem_append, ih, List.exists_mem_cons_iff]
    refine or_congr ?_ Iff.rfl
    cases node with
    | file content => simp [isFile, filesBelow]
    | link target => simp [isFile, filesBelow]
    | dir inner => simp [isFile, eq_comm (a := names)]

/-- A listed file stands where its names lead, and no directory on the way is left out. -/
theorem filesBelow_sound {node : Node} {pruned : String → Bool} (proper : node.Proper)
    {names : List String} (member : names ∈ node.filesBelow pruned) :
    names ≠ [] ∧ (∃ content, node.get? names = some (.file content)) ∧
      ∀ m ∈ names.dropLast, pruned m = false := by
  induction proper generalizing names with
  | file content => cases member
  | link target => cases member
  | dir ascending _ _ ih =>
    rw [filesBelow, mem_filesBelowEntries] at member
    obtain ⟨⟨n, child⟩, inEntries, ⟨file, here⟩ | ⟨entered, below, under, here⟩⟩ := member
    · subst here
      refine ⟨List.cons_ne_nil _ _, ?_, by simp⟩
      cases child with
      | file content =>
        refine ⟨content, ?_⟩
        rw [get?_cons_dir, ascending.lookup inEntries]
        rfl
      | link target => cases file
      | dir inner => cases file
    · subst here
      obtain ⟨some, ⟨content, held⟩, path⟩ := ih _ inEntries under
      refine ⟨List.cons_ne_nil _ _, ⟨content, ?_⟩, ?_⟩
      · rw [get?_cons_dir, ascending.lookup inEntries]
        exact held
      · rw [List.dropLast_cons_of_ne_nil some]
        exact List.forall_mem_cons.mpr ⟨entered, path⟩

/-- No file is listed twice. -/
theorem filesBelow_nodup {node : Node} {pruned : String → Bool} (proper : node.Proper) :
    (node.filesBelow pruned).Nodup := by
  induction proper with
  | file content => exact List.nodup_nil
  | link target => exact List.nodup_nil
  | @dir entries ascending names below ih =>
    rw [filesBelow]
    induction entries with
    | nil => simp [filesBelowEntries]
    | cons entry rest inner =>
      obtain ⟨first, later⟩ := List.pairwise_cons.mp ascending
      have others : (filesBelowEntries pruned rest).Nodup :=
        inner later (fun e member => names e (List.mem_cons_of_mem _ member))
          (fun e member => below e (List.mem_cons_of_mem _ member))
          fun e member => ih e (List.mem_cons_of_mem _ member)
      -- What is listed later starts with a later name.
      have apart : ∀ more, entry.1 :: more ∉ filesBelowEntries pruned rest := by
        intro more member
        obtain ⟨e, inRest, ⟨_, same⟩ | ⟨_, _, _, same⟩⟩ := mem_filesBelowEntries.mp member
        · exact absurd (List.cons.inj same).1 (ne_of_lt (first e inRest))
        · exact absurd (List.cons.inj same).1 (ne_of_lt (first e inRest))
      rcases entry with ⟨name, node⟩
      have here : (node.filesBelow pruned).Nodup := ih _ List.mem_cons_self
      rw [filesBelowEntries]
      refine List.nodup_append'.mpr ⟨?_, others, ?_⟩
      · split
        · exact List.nodup_singleton _
        · split
          · exact List.nodup_nil
          · exact here.map fun _ _ same => (List.cons.inj same).2
      · intro listed member
        split at member
        · rw [List.mem_singleton.mp member]
          exact apart []
        · split at member
          · cases member
          · obtain ⟨more, _, rfl⟩ := List.mem_map.mp member
            exact apart more

end Node

namespace Discovery

/-- What is known of discovered names. -/
structure Found (settings : Settings) (top : Node) (place names : List String) : Prop where
  below : names ≠ []
  valid : ∀ n ∈ names, Path.IsName n
  file : ∃ content, top.get? (place ++ names) = some (.file content)
  entered : ∀ n ∈ names.dropLast, settings.excludesDir n = false

/-- Discovered files are given by different names behind the path of the root. -/
theorem discover_ok {top : Node} (proper : top.Proper) {root extension : String}
    {settings : Settings} {files : List String} {place : List String}
    (leads : Node.Leads top root place)
    (discovered : top.discover root extension settings = .ok files) :
    ∃ found : List (List String), files = found.map (Path.joinNames root) ∧ found.Nodup ∧
      ∀ names ∈ found, Found settings top place names := by
  unfold Node.discover at discovered
  split at discovered
  next reached entries isRoot =>
    obtain ⟨located, here⟩ := Node.find_ok isRoot
    obtain rfl : reached = place := Except.ok.inj (located.symm.trans leads.located)
    have properRoot := (proper.get? here).1
    split at discovered
    · cases discovered
    · cases discovered
      refine ⟨_, rfl, ?_, ?_⟩
      · rw [relative, (List.mergeSort_perm _ _).nodup_iff]
        exact (Node.filesBelow_nodup properRoot).filter _
      · intro names member
        rw [relative, List.mem_mergeSort] at member
        obtain ⟨below, ⟨content, held⟩, entered⟩ :=
          Node.filesBelow_sound properRoot (List.mem_of_mem_filter member)
        exact ⟨below, (properRoot.get? held).2,
          ⟨content, by rw [Node.get?_append, here]; exact held⟩, entered⟩
  · cases discovered

/-- The paths of discovered files are all different. -/
theorem nodup_paths {top : Node} {root : String} {settings : Settings} {place : List String}
    {found : List (List String)} (leads : Node.Leads top root place) (nodup : found.Nodup)
    (known : ∀ names ∈ found, Found settings top place names) :
    (found.map (Path.joinNames root)).Nodup := by
  refine nodup.map_on fun names member others memberOthers same => ?_
  exact Path.joinNames_injective leads.relative.1 (known names member).valid
    (known others memberOthers).valid same

/-- A discovered path leads to its file. -/
theorem Found.eq_of_locate {top : Node} {root : String} {settings : Settings}
    {place names reached : List String} (leads : Node.Leads top root place)
    (found : Found settings top place names)
    (located : top.locate true (Path.joinNames root names) = .ok reached) :
    reached = place ++ names := by
  obtain ⟨content, held⟩ := found.file
  rw [leads.locate_names found.below found.valid held rfl] at located
  obtain ⟨_, _, rest⟩ := ok_of_bind located
  split at rest
  · cases rest
  · exact (Except.ok.inj rest).symm

end Discovery

end AutoDoc
