import AutoDoc.Proofs.Backup.Replacement
import AutoDoc.Proofs.Discovery.Basic
import AutoDoc.Proofs.Run.Stages

/-!
# The files of a run

A run works on the tree in which its backup was made. Outside the backup the files in it are those
that were there before (`Prepared.kept`), so what is discovered was there before as well
(`Prepared.found_before`), and where a path of a file to work on leads to, it led to before
(`Completed.locate_before`).

The root has to lead to the same directory at the end. It does if its path meets no link
(`steady_of_linkFree`), or does not pass through the backup folder (`steady_of_apart`).
-/

namespace AutoDoc.Run

open Node FileOutcome Discovery

/-- A run on a proper tree that has made its backup. The backup folder is a single name, and the root
leads to the same directory before and after. -/
structure Prepared (options : RunOptions) (settings : Settings) (env : Environment)
    (root : List String) : Prop where
  target : checkTarget options env.tree = .ok ()
  backup : (makeBackup options settings env.tree).1 = .ok ()
  proper : env.tree.Proper
  plain : Path.IsName settings.backupFolder
  leads : Leads env.tree options.root root
  leadsLater : (backedUp options settings env).locate true options.root = .ok root

/-- Such a run that returned a summary. Its formatters kept to the paths they were given. -/
structure Completed {π : Type} (host : Host π) (options : RunOptions) (settings : Settings)
    (env : Environment) (root : List String) (summary : Summary) (after : Environment) : Prop
    extends Prepared options settings env root where
  returned : Returned host options settings env summary after
  changed : ConfinedTo (documentedPaths (work host options settings env).1)
    (backedUp options settings env) after.tree

section

variable {π : Type} {host : Host π} {options : RunOptions} {settings : Settings}
  {started : Calendar.Instant} {env after : Environment} {summary : Summary} {root : List String}

/-- The root of a target that can be worked on leads to a directory. -/
theorem exists_leads_of_checkTarget {top : Node} (target : checkTarget options top = .ok ()) :
    ∃ root, Leads top options.root root := by
  unfold checkTarget at target
  split at target
  · cases target
  next isDir =>
    simp only [Bool.not_eq_true', Bool.not_eq_false] at isDir
    unfold pathIsDir at isDir
    split at isDir
    next place node found =>
      obtain ⟨reached, held⟩ := find_ok found
      cases node with
      | dir entries => exact ⟨place, reached, kindAt_dir.mpr ⟨entries, held⟩⟩
      | file content => cases isDir
      | link path => cases isDir
    · cases isDir

theorem leads_of_checkTarget {top : Node} (target : checkTarget options top = .ok ())
    (located : top.locate true options.root = .ok root) : Leads top options.root root := by
  obtain ⟨place, leads⟩ := exists_leads_of_checkTarget target
  obtain rfl : place = root := Except.ok.inj (leads.located.symm.trans located)
  exact leads

/-- A run that returns a summary has changed only the documented files since its backup. -/
theorem changed_of_run (confined : ∀ f ∈ formattersOf options settings, f.Confined host)
    (ran : run host options settings started env = (.ok summary, after)) :
    ConfinedTo (documentedPaths (work host options settings env).1)
      (backedUp options settings env) after.tree := by
  have returned := run_returned ran
  have formatted : ConfinedTo (documentedPaths (work host options settings env).1)
      (work host options settings env).2.tree
      (formatAll host (documentedPaths (work host options settings env).1)
        (formattersOf options settings) (work host options settings env).2).2.tree :=
    formatAll_confined confined _
  rw [returned.formatted] at formatted
  exact returned.worked.trans formatted

/-- A run that returned a summary is completed: what was assumed of its start holds up to its end. -/
theorem completed_of_run (proper : env.tree.Proper) (plain : Path.IsName settings.backupFolder)
    (confined : ∀ f ∈ formattersOf options settings, f.Confined host)
    (located : env.tree.locate true options.root = .ok root)
    (steady : after.tree.locate true options.root = .ok root)
    (ran : run host options settings started env = (.ok summary, after)) :
    Completed host options settings env root summary after := by
  have returned := run_returned ran
  have changed := changed_of_run confined ran
  exact ⟨⟨returned.target, returned.backup, proper, plain,
    leads_of_checkTarget returned.target located,
    by rw [← changed.locate_eq]; exact steady⟩, returned, changed⟩

/-! ### The tree with the backup -/

theorem backedUp_enabled (enabled : options.backup = true) :
    backedUp options settings env =
      (env.tree.backup options.root settings.backupFolder).1 := by
  unfold backedUp makeBackup
  rw [if_pos enabled]
  split <;> simp_all

theorem backedUp_disabled (disabled : options.backup = false) :
    backedUp options settings env = env.tree := by
  simp [backedUp, makeBackup, disabled]

/-- A run that wanted a backup and went on has made one. -/
theorem backup_made (enabled : options.backup = true)
    (made : (makeBackup options settings env.tree).1 = .ok ()) :
    ∃ path, env.tree.backup options.root settings.backupFolder =
      (backedUp options settings env, .ok path) := by
  rw [backedUp_enabled enabled]
  unfold makeBackup at made
  rw [if_pos enabled] at made
  rcases done : env.tree.backup options.root settings.backupFolder with ⟨after, e | path⟩
  · rw [done] at made
    cases made
  · exact ⟨path, rfl⟩

/-- A root that leads to its directory as well when the backup folder is not there leads to it after
a run: its path does not pass through that folder. -/
theorem steady_of_apart (plain : Path.IsName settings.backupFolder)
    (confined : ∀ f ∈ formattersOf options settings, f.Confined host)
    (located : env.tree.locate true options.root = .ok root)
    (apart : (env.tree.erase (root ++ [settings.backupFolder])).locate true options.root = .ok root)
    (ran : run host options settings started env = (.ok summary, after)) :
    after.tree.locate true options.root = .ok root := by
  rw [(changed_of_run confined ran).locate_eq]
  cases enabled : options.backup with
  | true =>
    rw [backedUp_enabled enabled]
    exact Backup.backup_stays plain (leads_of_checkTarget (run_returned ran).target located) apart
  | false => rwa [backedUp_disabled enabled]

/-- A root whose path meets no link leads to its directory after a run. -/
theorem steady_of_linkFree (plain : Path.IsName settings.backupFolder)
    (confined : ∀ f ∈ formattersOf options settings, f.Confined host)
    (located : env.tree.locate true options.root = .ok root)
    (free : env.tree.LinkFree options.root)
    (ran : run host options settings started env = (.ok summary, after)) :
    after.tree.locate true options.root = .ok root := by
  rw [(changed_of_run confined ran).locate_eq]
  have returned := run_returned ran
  cases enabled : options.backup with
  | true =>
    obtain ⟨path, done⟩ := backup_made enabled returned.backup
    exact Backup.backup_stays_of_linkFree plain (leads_of_checkTarget returned.target located) free
      done
  | false => rwa [backedUp_disabled enabled]

theorem Prepared.backed_up (ready : Prepared options settings env root)
    (enabled : options.backup = true) :
    Backup.BackedUp root settings.backupFolder env.tree (backedUp options settings env) := by
  obtain ⟨path, done⟩ := backup_made enabled ready.backup
  exact Backup.backup_ok ready.proper ready.plain ready.leads ready.leadsLater done

/-- Outside a place files are as they were, and no links were added. -/
structure Kept (place : List String) (before after : Node) : Prop where
  contents : ∀ names, ¬ place <+: names → after.contentAt names = before.contentAt names
  links : ∀ names target, after.kindAt names = some (.link target) →
    before.kindAt names = some (.link target)

/-- A backup touches nothing outside its folder. -/
theorem Prepared.kept (ready : Prepared options settings env root) :
    Kept (root ++ [settings.backupFolder]) env.tree (backedUp options settings env) := by
  cases enabled : options.backup with
  | true =>
    have backed := ready.backed_up enabled
    exact ⟨backed.contents, backed.links⟩
  | false =>
    rw [backedUp_disabled enabled]
    exact ⟨fun _ _ => rfl, fun _ _ link => link⟩

theorem Prepared.proper_backedUp (ready : Prepared options settings env root) :
    (backedUp options settings env).Proper := by
  cases enabled : options.backup with
  | true => exact (ready.backed_up enabled).proper
  | false =>
    rw [backedUp_disabled enabled]
    exact ready.proper

/-- The root still leads to its directory after the backup. -/
theorem Prepared.leads_backedUp (ready : Prepared options settings env root) :
    Leads (backedUp options settings env) options.root root := by
  refine ⟨ready.leadsLater, ?_⟩
  cases enabled : options.backup with
  | true =>
    have off : ¬ root ++ [settings.backupFolder] <+: root := fun leading => by
      simpa using leading.length_le
    exact (ready.backed_up enabled).kinds _ _ off ready.leads.dir
  | false =>
    rw [backedUp_disabled enabled]
    exact ready.leads.dir

/-! ### What is worked on -/

theorem excludesDir_backupFolder (settings : Settings) :
    settings.excludesDir settings.backupFolder = true := by
  simp [Settings.excludesDir]

/-- No file of the backup is discovered. -/
theorem Prepared.not_in_backup (ready : Prepared options settings env root)
    (enabled : options.backup = true) {names : List String}
    (found : Found settings (backedUp options settings env) root names) :
    ¬ [settings.backupFolder] <+: names := by
  rintro ⟨rest, rfl⟩
  cases rest with
  | nil =>
    obtain ⟨content, held⟩ := found.file
    have dir := (ready.backed_up enabled).held
    rw [List.append_nil] at held
    rw [kindAt, held] at dir
    cases dir
  | cons n more =>
    have entered := found.entered settings.backupFolder (by simp)
    rw [excludesDir_backupFolder] at entered
    cases entered

/-- What is discovered was there before the backup was made. -/
theorem Prepared.found_before (ready : Prepared options settings env root)
    {names : List String} (found : Found settings (backedUp options settings env) root names) :
    Found settings env.tree root names := by
  cases enabled : options.backup with
  | true =>
    obtain ⟨content, held⟩ := found.file
    have off : ¬ root ++ [settings.backupFolder] <+: root ++ names := fun below =>
      ready.not_in_backup enabled found ((List.prefix_append_right_inj root).mp below)
    refine ⟨found.below, found.valid, ⟨content, ?_⟩, found.entered⟩
    rw [← contentAt_eq_some, ready.kept.contents _ off] at held
    rwa [← contentAt_eq_some]
  | false => rwa [backedUp_disabled enabled] at found

/-- The files of a target are those that are discovered, or the one file that is given. -/
theorem Prepared.files_cases (ready : Prepared options settings env root) {files : List String}
    (listed : filesOf options settings (backedUp options settings env) = .ok files) :
    (∃ found : List (List String), options.target = .repository ∧
      files = found.map (Path.joinNames options.root) ∧
      found.Nodup ∧ ∀ names ∈ found, Found settings (backedUp options settings env) root names) ∨
    ∃ path, options.target = .file path ∧ files = [path] ∧ env.tree.pathIsFile path = true := by
  have target := ready.target
  unfold filesOf at listed
  unfold checkTarget at target
  split at target
  · cases target
  · cases aim : options.target with
    | repository =>
      rw [aim] at listed
      dsimp only at listed
      split at listed
      next paths discovered =>
        obtain ⟨found, rfl, nodup, known⟩ :=
          discover_ok ready.proper_backedUp ready.leads_backedUp discovered
        exact Or.inl ⟨found, rfl, (Except.ok.inj listed).symm, nodup, known⟩
      · cases listed
    | file path =>
      rw [aim] at listed target
      refine Or.inr ⟨path, rfl, (Except.ok.inj listed).symm, ?_⟩
      dsimp only at target
      split at target
      · cases target
      · split at target
        · cases target
        next isFile => simpa using isFile

/-- A run works on the files of its target. -/
theorem Completed.target_cases (done : Completed host options settings env root summary after) :
    (∃ found : List (List String), options.target = .repository ∧
      (work host options settings env).1.map (·.path) = found.map (Path.joinNames options.root) ∧
      found.Nodup ∧ ∀ names ∈ found, Found settings (backedUp options settings env) root names) ∨
    ∃ path, options.target = .file path ∧
      (work host options settings env).1.map (·.path) = [path] ∧
      env.tree.pathIsFile path = true :=
  done.files_cases done.returned.files

/-- A run works on no file twice. -/
theorem Completed.nodup (done : Completed host options settings env root summary after) :
    ((work host options settings env).1.map (·.path)).Nodup := by
  rcases done.target_cases with ⟨found, _, paths, nodup, known⟩ | ⟨path, _, paths, _⟩
  · rw [paths]
    exact nodup_paths done.leads_backedUp nodup known
  · rw [paths]
    exact List.nodup_singleton path

/-- Where a discovered path leads to, it led to before. -/
theorem Prepared.locate_found (ready : Prepared options settings env root)
    {names : List String} (found : Found settings (backedUp options settings env) root names) :
    (backedUp options settings env).locate true (Path.joinNames options.root names) =
      env.tree.locate true (Path.joinNames options.root names) := by
  obtain ⟨_, there⟩ := found.file
  obtain ⟨_, before⟩ := (ready.found_before found).file
  rw [ready.leads_backedUp.locate_names found.below found.valid there rfl,
    ready.leads.locate_names found.below found.valid before rfl]

theorem LinkFree.of_kept {place : List String} {top later : Node} (kept : Kept place top later)
    {path : String} (free : top.LinkFree path) : later.LinkFree path :=
  fun parts leading target link => free parts leading target (kept.links _ _ link)

/-- Where the path of a file to work on leads to, it led to before. -/
theorem Completed.locate_before (done : Completed host options settings env root summary after)
    (direct : ∀ path, options.target = .file path → env.tree.LinkFree path)
    {path : String} (member : path ∈ (work host options settings env).1.map (·.path))
    {place : List String}
    (located : (backedUp options settings env).locate true path = .ok place) :
    env.tree.locate true path = .ok place := by
  rcases done.target_cases with ⟨found, _, paths, _, known⟩ | ⟨given, aim, paths, isFile⟩
  · rw [paths] at member
    obtain ⟨names, inFound, rfl⟩ := List.mem_map.mp member
    rwa [done.locate_found (known names inFound)] at located
  · rw [paths] at member
    obtain rfl := List.mem_singleton.mp member
    have free := direct path aim
    unfold pathIsFile at isFile
    split at isFile
    next before node found =>
      obtain ⟨reached, _⟩ := find_ok found
      rw [reached, locate_of_linkFree free reached,
        locate_of_linkFree (LinkFree.of_kept done.kept free) located]
    · cases isFile

/-- Paths of files to work on that led to one place are the same. -/
theorem Completed.path_unique (done : Completed host options settings env root summary after)
    {path other : String} (member : path ∈ (work host options settings env).1.map (·.path))
    (otherMember : other ∈ (work host options settings env).1.map (·.path))
    {place : List String} (located : env.tree.locate true path = .ok place)
    (otherLocated : env.tree.locate true other = .ok place) : path = other := by
  rcases done.target_cases with ⟨found, _, paths, _, known⟩ | ⟨given, _, paths, _⟩
  · rw [paths] at member otherMember
    obtain ⟨names, inFound, rfl⟩ := List.mem_map.mp member
    obtain ⟨others, inFound', rfl⟩ := List.mem_map.mp otherMember
    have here := (done.found_before (known names inFound)).eq_of_locate done.leads located
    have there := (done.found_before (known others inFound')).eq_of_locate done.leads otherLocated
    rw [List.append_cancel_left (here.symm.trans there)]
  · rw [paths] at member otherMember
    rw [List.mem_singleton.mp member, List.mem_singleton.mp otherMember]

end

end AutoDoc.Run
