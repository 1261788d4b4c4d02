import AutoDoc.Proofs.Discovery.Basic

/-!
# Discovery as a filter

Discovery enters some directories and not others, and sorts what it comes to. What it is for can be
said of one file at a time (`Wanted`), with no walk: by the names on the way from the root. Both give
the same files (`mem_relative`), and these come out in the order of their parts, which is not that of
their texts: `a/b.py` stands before `a.py`.
-/

namespace AutoDoc

/-! ### Names of directories and files -/

namespace Settings

/-- An entry of a list of directories matches a name: it is this name, or an asterisk and behind it
an ending of the name. -/
def Matches (entry name : String) : Prop :=
  entry = name ∨ ∃ front ending, entry = "*" ++ ending ∧ name = front ++ ending

/-- Directories of this name are left out. -/
def Excludes (s : Settings) (name : String) : Prop :=
  name = s.backupFolder ∨ ∃ entry ∈ s.excluded, Matches entry name

/-- Directories of this name are singled out. -/
def Includes (s : Settings) (name : String) : Prop := ∃ entry ∈ s.included, Matches entry name

/-- A star at the head of an entry stands for any characters. -/
theorem entryMatches_iff {entry name : String} :
    entryMatches entry name = true ↔ Matches entry name := by
  have asterisk : "*".toList = ['*'] := rfl
  unfold entryMatches Matches
  split
  next ending starred =>
    rw [List.isSuffixOf_iff_suffix]
    constructor
    · rintro ⟨front, ends⟩
      refine Or.inr ⟨String.ofList front, String.ofList ending, ?_, ?_⟩
      · rw [← String.toList_inj, String.toList_append, starred, asterisk, String.toList_ofList]
        rfl
      · rw [← String.toList_inj, String.toList_append, String.toList_ofList, String.toList_ofList,
          ends]
    · rintro (rfl | ⟨front, rest, rfl, rfl⟩)
      · exact ⟨['*'], starred.symm⟩
      · rw [String.toList_append, asterisk, List.singleton_append] at starred
        exact ⟨front.toList, by rw [String.toList_append, (List.cons.inj starred).2]⟩
  next plain =>
    rw [beq_iff_eq]
    refine ⟨Or.inl, ?_⟩
    rintro (same | ⟨_, ending, rfl, _⟩)
    · exact same
    · exact absurd (by rw [String.toList_append, asterisk]; rfl) (plain ending.toList)

theorem excludesDir_iff {s : Settings} {name : String} :
    s.excludesDir name = true ↔ s.Excludes name := by
  simp only [excludesDir, Excludes, Bool.or_eq_true, beq_iff_eq, List.any_eq_true, entryMatches_iff]

theorem includesDir_iff {s : Settings} {name : String} :
    s.includesDir name = true ↔ s.Includes name := by
  simp only [includesDir, Includes, List.any_eq_true, entryMatches_iff]

end Settings

namespace Path

theorem toList_dot : ".".toList = ['.'] := rfl

/-- A name has an extension behind its last dot, which does not start the name. -/
def HasExtension (extension name : String) : Prop :=
  ∃ stem, stem ≠ "" ∧ '.' ∉ extension.toList ∧ name = stem ++ "." ++ extension

/-- The extension that is computed is the one that a name has. -/
theorem extensionOf?_eq_some {name extension : String} :
    extensionOf? name = some extension ↔ HasExtension extension name := by
  unfold extensionOf? HasExtension
  dsimp only
  constructor
  · intro found
    have pieces := List.takeWhile_append_dropWhile (p := (· != '.')) (l := name.toList.reverse)
    split at found
    · cases found
    · cases found
    next long short =>
      obtain ⟨c, rest, behind⟩ := List.exists_cons_of_ne_nil long
      have stop : c = '.' := by
        have head := List.head?_dropWhile_not (· != '.') name.toList.reverse
        rw [behind] at head
        simpa using head
      subst stop
      cases found
      refine ⟨String.ofList rest.reverse, ?_, ?_, ?_⟩
      · intro none
        obtain rfl : rest = [] := by simpa using none
        exact short '.' behind
      · rw [String.toList_ofList, List.mem_reverse]
        exact fun member => by simpa using List.all_eq_true.mp List.all_takeWhile _ member
      · rw [behind] at pieces
        have whole := congrArg List.reverse pieces
        rw [List.reverse_append, List.reverse_cons, List.reverse_reverse] at whole
        rw [← String.toList_inj]
        simp only [String.toList_append, String.toList_ofList, toList_dot]
        exact whole.symm
  · rintro ⟨stem, some, noDot, rfl⟩
    have before : ∀ c ∈ extension.toList.reverse, (c != '.') = true := by
      intro c member
      rw [bne_iff_ne]
      rintro rfl
      exact noDot (List.mem_reverse.mp member)
    have reversed : (stem ++ "." ++ extension).toList.reverse =
        extension.toList.reverse ++ '.' :: stem.toList.reverse := by simp [toList_dot]
    rw [reversed, List.dropWhile_append_of_pos before, List.takeWhile_append_of_pos before]
    obtain ⟨c, rest, last⟩ : ∃ c rest, stem.toList.reverse = c :: rest :=
      List.exists_cons_of_ne_nil (by simpa using some)
    simp [last]

/-! ### The order of paths -/

/-- The order of parts: a dot, two dots, then the names by their characters. -/
inductive Part.Before : Part → Part → Prop
  | current_parent : Before .current .parent
  | current_name (n : String) : Before .current (.name n)
  | parent_name (n : String) : Before .parent (.name n)
  | names {m n : String} (less : m < n) : Before (.name m) (.name n)

/-- The order of paths: the first components that differ decide. -/
def Before (path other : String) : Prop :=
  List.Lex Part.Before (components path) (components other)

/-- Names that are joined to one path put it in their order. -/
theorem before_joinNames {root : String} (written : root ≠ "")
    (relative : (parse root).absolute = false) {names others : List String}
    (valid : ∀ n ∈ names, IsName n) (validOthers : ∀ n ∈ others, IsName n)
    (less : names < others) : Before (joinNames root names) (joinNames root others) := by
  unfold Before
  rw [components_joinNames written relative valid, components_joinNames written relative validOthers]
  have below : List.Lex Part.Before (names.map .name) (others.map .name) := by
    clear valid validOthers
    induction less with
    | nil => exact .nil
    | rel less => exact .rel (.names less)
    | cons _ ih => exact .cons ih
  induction components root with
  | nil => exact below
  | cons part rest ih => exact .cons ih

/-- The slash does not count in the order of paths, as it does in that of texts. -/
example : Before "a/b.py" "a.py" ∧ "a.py" < "a/b.py" :=
  ⟨.rel (.names (by decide)), by decide⟩

end Path

/-! ### Walks that leave directories out -/

namespace Node

/-- A file that stands behind names is listed, if no directory on the way is left out. -/
theorem mem_filesBelow {node : Node} {pruned : String → Bool} {names : List String}
    {content : ByteArray} (below : names ≠ []) (held : node.get? names = some (.file content))
    (entered : ∀ m ∈ names.dropLast, pruned m = false) : names ∈ node.filesBelow pruned := by
  induction names generalizing node with
  | nil => exact absurd rfl below
  | cons n rest ih =>
    obtain ⟨entries, child, rfl, found, under⟩ := get?_cons_eq_some held
    rw [filesBelow, mem_filesBelowEntries]
    refine ⟨(n, child), mem_of_lookup found, ?_⟩
    cases rest with
    | nil =>
      obtain rfl : child = .file content := by simpa [Node.get?] using under
      exact Or.inl ⟨rfl, rfl⟩
    | cons m more =>
      rw [List.dropLast_cons_of_ne_nil (List.cons_ne_nil m more)] at entered
      obtain ⟨here, later⟩ := List.forall_mem_cons.mp entered
      exact Or.inr ⟨here, m :: more, ih (List.cons_ne_nil m more) under later, rfl⟩

theorem mem_dirsBelowEntries {pruned : String → Bool} {entries : List (String × Node)}
    {names : List String} :
    names ∈ dirsBelowEntries pruned entries ↔ ∃ e ∈ entries, e.2.isDir = true ∧
      pruned e.1 = false ∧ (names = [e.1] ∨ ∃ below ∈ e.2.dirsBelow pruned, names = e.1 :: below) := by
  induction entries with
  | nil => simp [dirsBelowEntries]
  | cons entry rest ih =>
    rcases entry with ⟨name, node⟩
    rw [dirsBelowEntries, List.mem_append, ih, List.exists_mem_cons_iff]
    refine or_congr ?_ Iff.rfl
    cases node.isDir <;> cases pruned name <;> simp [eq_comm (a := names)]

/-- The directories that are listed are those with no name on the way that is left out. -/
theorem mem_dirsBelow {node : Node} {pruned : String → Bool} (proper : node.Proper)
    {names : List String} : names ∈ node.dirsBelow pruned ↔
      names ≠ [] ∧ node.kindAt names = some .dir ∧ ∀ m ∈ names, pruned m = false := by
  induction proper generalizing names with
  | file content => cases names <;> simp [dirsBelow, kindAt, Node.get?]
  | link target => cases names <;> simp [dirsBelow, kindAt, Node.get?]
  | @dir entries ascending _ _ ih =>
    rw [dirsBelow, mem_dirsBelowEntries]
    constructor
    · rintro ⟨⟨n, child⟩, inEntries, isDir, entered, rfl | ⟨below, under, rfl⟩⟩
      · refine ⟨List.cons_ne_nil _ _, ?_, List.forall_mem_singleton.mpr entered⟩
        rw [kindAt_cons, ascending.lookup inEntries]
        cases child with
        | dir inner => rfl
        | file content => cases isDir
        | link target => cases isDir
      · obtain ⟨_, held, path⟩ := (ih _ inEntries).mp under
        refine ⟨List.cons_ne_nil _ _, ?_, List.forall_mem_cons.mpr ⟨entered, path⟩⟩
        rw [kindAt_cons, ascending.lookup inEntries]
        exact held
    · rintro ⟨some, held, path⟩
      obtain ⟨n, rest, rfl⟩ := List.exists_cons_of_ne_nil some
      obtain ⟨entered, later⟩ := List.forall_mem_cons.mp path
      rw [kindAt_cons] at held
      obtain ⟨child, found, under⟩ := Option.bind_eq_some_iff.mp held
      have isDir : child.isDir = true := by
        cases child with
        | dir inner => rfl
        | file content => cases rest <;> cases under
        | link target => cases rest <;> cases under
      refine ⟨(n, child), mem_of_lookup found, isDir, entered, ?_⟩
      cases rest with
      | nil => exact Or.inl rfl
      | cons m more =>
        exact Or.inr ⟨_, (ih _ (mem_of_lookup found)).mpr
          ⟨List.cons_ne_nil m more, under, later⟩, rfl⟩

end Node

namespace Discovery

/-- The order in which paths are sorted is the one of their names, the first name first. -/
theorem inOrder_iff {names others : List String} : inOrder names others = true ↔ names ≤ others := by
  rw [← not_lt]
  induction names generalizing others with
  | nil => simp [inOrder]
  | cons a as ih =>
    cases others with
    | nil => simp [inOrder]
    | cons b bs =>
      rw [inOrder, List.cons_lt_cons_iff]
      split
      next same => simp [same, ih]
      next other =>
        simp only [decide_eq_true_eq, Ne.symm other, false_and, or_false, not_lt]
        exact ⟨le_of_lt, fun le => lt_of_le_of_ne le other⟩

/-- What discovery is for: a regular file below a directory that has the extension, and on the way
to it no directory that is left out and, if any are singled out, one of these. -/
structure Wanted (settings : Settings) (extension : String) (node : Node) (names : List String) :
    Prop where
  file : ∃ content, node.get? names = some (.file content)
  extension : ∃ name, names.getLast? = some name ∧ Path.HasExtension extension name
  entered : ∀ dir ∈ names.dropLast, ¬ settings.Excludes dir
  singled : settings.included ≠ [] → ∃ dir ∈ names.dropLast, settings.Includes dir

/-- Every directory below the root that is not left out has a path that can be passed on. -/
def Readable (settings : Settings) (root : String) (node : Node) : Prop :=
  ∀ names, names ≠ [] → node.kindAt names = some .dir → (∀ dir ∈ names, ¬ settings.Excludes dir) →
    ¬ Path.tooLong (Path.joinNames root names)

section

variable {settings : Settings} {extension : String} {node : Node}

theorem not_excludes_iff {dirs : List String} :
    (∀ dir ∈ dirs, settings.excludesDir dir = false) ↔ ∀ dir ∈ dirs, ¬ settings.Excludes dir := by
  simp only [← Settings.excludesDir_iff, Bool.not_eq_true]

theorem admits_iff {names : List String} : admits settings extension names = true ↔
    (∃ name, names.getLast? = some name ∧ Path.HasExtension extension name) ∧
      (settings.included ≠ [] → ∃ dir ∈ names.dropLast, settings.Includes dir) := by
  simp only [admits, Bool.and_eq_true, beq_iff_eq, Option.bind_eq_some_iff,
    Path.extensionOf?_eq_some, Bool.or_eq_true, List.isEmpty_iff, List.any_eq_true,
    Settings.includesDir_iff, ne_eq, Classical.or_iff_not_imp_left]

/-- The walk that leaves directories out finds what is wanted. -/
theorem mem_relative (proper : node.Proper) {names : List String} :
    names ∈ relative settings extension node ↔ Wanted settings extension node names := by
  rw [relative, List.mem_mergeSort, List.mem_filter, admits_iff]
  constructor
  · rintro ⟨listed, extension, singled⟩
    obtain ⟨_, file, entered⟩ := Node.filesBelow_sound proper listed
    exact ⟨file, extension, not_excludes_iff.mp entered, singled⟩
  · rintro ⟨⟨content, held⟩, extension, entered, singled⟩
    have below : names ≠ [] := by
      rintro rfl
      obtain ⟨_, none, _⟩ := extension
      cases none
    exact ⟨Node.mem_filesBelow below held (not_excludes_iff.mpr entered), extension, singled⟩

/-- What is found comes in ascending order, each file once. -/
theorem relative_ascending (proper : node.Proper) :
    (relative settings extension node).Pairwise (· < ·) := by
  have nodup : (relative settings extension node).Nodup := by
    rw [relative, (List.mergeSort_perm _ _).nodup_iff]
    exact (Node.filesBelow_nodup proper).filter _
  have sorted : (relative settings extension node).Pairwise fun a b => inOrder a b = true := by
    refine List.pairwise_mergeSort ?_ ?_ _
    · simp only [inOrder_iff]
      exact fun a b c => le_trans
    · simp only [Bool.or_eq_true, inOrder_iff]
      exact le_total
  exact (sorted.and nodup).imp fun both => lt_of_le_of_ne (inOrder_iff.mp both.1) both.2

theorem blocked_eq_false_iff (proper : node.Proper) {root : String} :
    blocked settings root node = false ↔ Readable settings root node := by
  rw [blocked, List.any_eq_false]
  simp only [Node.mem_dirsBelow proper, not_excludes_iff, Readable, and_imp]

/-- Discovery is a filter on all that is below the root. What it finds is the same wherever the root
stands and whatever it is called: the wanted files and no others, each of them once, behind the path
of the root and in the order of paths. It only fails where a directory that it would enter has a
path that is too long. -/
theorem discover_wanted (proper : node.Proper) (isDir : node.isDir = true)
    (settings : Settings) (extension : String) :
    ∃ found : List (List String),
      (∀ names, names ∈ found ↔ Wanted settings extension node names) ∧
      ∀ {top : Node} {root : String} {place : List String}, top.find root = .ok (place, node) →
        (Readable settings root node → ∃ files, top.discover root extension settings = .ok files ∧
          files = found.map (Path.joinNames root) ∧ files.Nodup ∧ files.Pairwise Path.Before) ∧
        (¬ Readable settings root node →
          top.discover root extension settings = .error (.os .nameTooLong)) := by
  refine ⟨relative settings extension node, fun names => mem_relative proper, ?_⟩
  intro top root place isRoot
  obtain ⟨entries, rfl⟩ : ∃ entries, node = .dir entries := by
    cases node with
    | dir entries => exact ⟨entries, rfl⟩
    | file content => cases isDir
    | link target => cases isDir
  obtain ⟨located, here⟩ := Node.find_ok isRoot
  have leads : Node.Leads top root place := ⟨located, Node.kindAt_dir.mpr ⟨entries, here⟩⟩
  obtain ⟨written, relativeRoot⟩ := leads.relative
  have valid : ∀ names ∈ relative settings extension (.dir entries),
      ∀ n ∈ names, Path.IsName n := by
    intro names member
    obtain ⟨content, held⟩ := ((mem_relative proper).mp member).file
    exact (proper.get? held).2
  have ascending : (relative settings extension (.dir entries)).Pairwise (· < ·) :=
    relative_ascending proper
  unfold Node.discover
  rw [isRoot]
  constructor
  · intro readable
    refine ⟨_, if_neg (by simp [(blocked_eq_false_iff proper).mpr readable]), rfl, ?_, ?_⟩
    · refine List.Nodup.map_on ?_ ascending.nodup
      intro names member others memberOthers same
      exact Path.joinNames_injective written (valid names member) (valid others memberOthers) same
    · refine List.pairwise_map.mpr (ascending.imp_of_mem ?_)
      intro names others member memberOthers less
      exact Path.before_joinNames written relativeRoot (valid names member)
        (valid others memberOthers) less
  · intro unreadable
    exact if_pos (by simpa using mt (blocked_eq_false_iff proper).mp unreadable)

end

/-- A root whose own name is left out by the settings, with a link and a directory left out below. -/
theorem discover_wanted_nested :
    let node : Node := .dir [("a", .dir [("b.py", .file ⟨#[]⟩), ("l.py", .link "b.py"),
      ("venv", .dir [("x.py", .file ⟨#[]⟩)])]), ("a.py", .file ⟨#[]⟩)]
    ∃ files, (Node.dir [("build", node)]).discover "build" "py" {} = .ok files ∧ files.Nodup ∧
      files.Pairwise Path.Before ∧ "build/a/b.py" ∈ files ∧ "build/a/l.py" ∉ files ∧
      "build/a/venv/x.py" ∉ files := by
  intro node
  have proper : node.Proper := by decide
  obtain ⟨found, wanted, discovered⟩ := discover_wanted proper rfl {} "py"
  have isRoot : (Node.dir [("build", node)]).find "build" = .ok (["build"], node) := rfl
  obtain ⟨files, ran, paths, nodup, ordered⟩ :=
    (discovered isRoot).1 ((blocked_eq_false_iff proper).mp (by decide))
  have unlisted : ∀ names, names ∉ found → (∀ n ∈ names, Path.IsName n) →
      Path.joinNames "build" names ∉ files := by
    intro names absent valid listed
    rw [paths] at listed
    obtain ⟨others, member, same⟩ := List.mem_map.mp listed
    obtain ⟨content, held⟩ := ((wanted others).mp member).file
    obtain rfl := Path.joinNames_injective (by decide) (proper.get? held).2 valid same
    exact absent member
  refine ⟨files, ran, nodup, ordered, ?_, ?_, ?_⟩
  · rw [paths]
    refine List.mem_map.mpr ⟨["a", "b.py"], (wanted _).mpr ⟨⟨_, rfl⟩, ?_, ?_, ?_⟩, rfl⟩
    · exact ⟨"b.py", rfl, "b", by decide, by decide, rfl⟩
    · exact not_excludes_iff.mp (by decide)
    · exact fun some => absurd rfl some
  · refine unlisted ["a", "l.py"] (fun member => ?_) (by decide)
    obtain ⟨content, held⟩ := ((wanted _).mp member).file
    cases held
  · refine unlisted ["a", "venv", "x.py"] (fun member => ?_) (by decide)
    exact ((wanted _).mp member).entered "venv" (by simp) (Settings.excludesDir_iff.mp (by decide))

end Discovery

end AutoDoc
