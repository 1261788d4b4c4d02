import AutoDoc.Proofs.Run.Totals

/-!
# Runs that stop

A run that stops with an error has only come as far as its backup, so every file outside the backup
has its bytes (`attempt_stopped_spares`); this takes a root that leads to the same directory
afterwards. The code of the error says what stopped the run, and if that was the target nothing was
done at all (`attempt_stopped_code`). A run of one file whose documented form was not valid returns a
summary and has written nothing either (`Returned.spares`).
-/

namespace AutoDoc.Run

open Node FileOutcome

/-- Names that do not stand in the backup folder of a root. -/
def Outside (options : RunOptions) (settings : Settings) (top : Node) (names : List String) :
    Prop :=
  ∀ root, top.locate true options.root = .ok root → ¬ root ++ [settings.backupFolder] <+: names

/-- If the root led anywhere, it leads there afterwards. -/
def RootStays (options : RunOptions) (before after : Node) : Prop :=
  ∀ root, before.locate true options.root = .ok root → after.locate true options.root = .ok root

/-- Writing files moves no root. -/
theorem RootStays.before {options : RunOptions} {paths : List String} {first before after : Node}
    (stays : RootStays options first after) (confined : ConfinedTo paths before after) :
    RootStays options first before := by
  intro root located
  rw [← confined.locate_eq]
  exact stays root located

/-- Files that do not stand in the backup folder have the same bytes afterwards, and there are no
more of them. -/
def SparesSources (options : RunOptions) (settings : Settings) (before after : Node) : Prop :=
  ∀ names, Outside options settings before names → after.contentAt names = before.contentAt names

section

variable {π : Type} {host : Host π} {options : RunOptions} {settings : Settings}
  {started : Calendar.Instant} {env after : Environment} {summary : Summary} {e : RunError}

/-! ### Up to the backup -/

/-- Making a backup spares the sources, however far it comes. -/
theorem backedUp_spares (proper : env.tree.Proper) (plain : Path.IsName settings.backupFolder)
    (target : checkTarget options env.tree = .ok ())
    (stays : RootStays options env.tree (backedUp options settings env)) :
    SparesSources options settings env.tree (backedUp options settings env) := by
  intro names off
  obtain ⟨root, leads⟩ := exists_leads_of_checkTarget target
  have steady := stays root leads.located
  cases enabled : options.backup with
  | true =>
    rw [backedUp_enabled enabled] at steady ⊢
    exact Backup.backup_outside proper plain leads steady (off root leads.located)
  | false => rw [backedUp_disabled enabled]

/-- After a backup the root leads to some directory. -/
theorem exists_leads_backedUp (plain : Path.IsName settings.backupFolder)
    (target : checkTarget options env.tree = .ok ())
    (backup : (makeBackup options settings env.tree).1 = .ok ()) :
    ∃ root, Leads (backedUp options settings env) options.root root := by
  obtain ⟨root, leads⟩ := exists_leads_of_checkTarget target
  cases enabled : options.backup with
  | true =>
    obtain ⟨path, done⟩ := backup_made enabled backup
    exact Backup.backup_leads plain leads done
  | false =>
    rw [backedUp_disabled enabled]
    exact ⟨root, leads⟩

theorem exists_prepared (proper : env.tree.Proper) (plain : Path.IsName settings.backupFolder)
    (target : checkTarget options env.tree = .ok ())
    (backup : (makeBackup options settings env.tree).1 = .ok ())
    (stays : RootStays options env.tree (backedUp options settings env)) :
    ∃ root, Prepared options settings env root := by
  obtain ⟨root, leads⟩ := exists_leads_of_checkTarget target
  exact ⟨root, target, backup, proper, plain, leads, stays root leads.located⟩

/-- The blocks of a run can be counted in every tree with fewer than `2 ^ 32` nodes whose root stays
where it is. -/
theorem counted_of_small (proper : env.tree.Proper) (plain : Path.IsName settings.backupFolder)
    (small : env.tree.listing.length < 2 ^ 32)
    (stays : RootStays options env.tree (backedUp options settings env))
    (worked : Worked host options settings env) : Counted host options settings env := by
  obtain ⟨root, ready⟩ := exists_prepared proper plain worked.target worked.backup stays
  exact worked.counted ready small

/-! ### Codes -/

/-- Whatever is wrong with the target, the run ends with the code 3. -/
theorem checkTarget_code {top : Node} (refused : checkTarget options top = .error e) :
    e.code = 3 := by
  unfold checkTarget at refused
  split at refused
  · cases refused
    rfl
  · split at refused
    · cases refused
    · split at refused
      · cases refused
        rfl
      · split at refused
        · cases refused
          rfl
        · cases refused

/-- Whatever keeps the backup from being made, the run ends with the code 4. -/
theorem makeBackup_code {top : Node} (failed : (makeBackup options settings top).1 = .error e) :
    e.code = 4 := by
  unfold makeBackup at failed
  split at failed
  · split at failed
    · cases failed
    · cases failed
      rfl
  · cases failed

theorem parserOf_code {top : Node} (failed : parserOf host settings top = .error e) :
    e.code = 2 := by
  unfold parserOf at failed
  split at failed
  · cases failed
  · cases failed
    rfl

/-- The root is there after the backup, so only the system can keep files from being discovered. -/
theorem filesOf_code (plain : Path.IsName settings.backupFolder)
    (target : checkTarget options env.tree = .ok ())
    (backup : (makeBackup options settings env.tree).1 = .ok ())
    (failed : filesOf options settings (backedUp options settings env) = .error e) :
    e.code = 4 := by
  obtain ⟨root, leads⟩ := exists_leads_backedUp plain target backup
  obtain ⟨entries, found⟩ := leads.find
  unfold filesOf at failed
  split at failed
  · cases failed
  · unfold Node.discover at failed
    rw [found] at failed
    dsimp only at failed
    split at failed
    · cases failed
    next error blocked =>
      split at blocked
      · cases blocked
        cases failed
        rfl
      · cases blocked

theorem startThreads_code (failed : startThreads host settings = .error e) : e.code = 10 := by
  unfold startThreads at failed
  split at failed
  · cases failed
  · cases failed
    rfl

/-- The code of a run that stopped says what stopped it. If it is 3, nothing was done. -/
theorem attempt_stopped_code (plain : Path.IsName settings.backupFolder)
    (ran : attempt host options settings started env = (.ok (.error e), after)) :
    e.code ∈ [2, 3, 4, 10] ∧ (e.code = 3 → after = env) := by
  have ends := attempt_ends host options settings started env
  rw [ran] at ends
  cases ends with
  | target refused =>
    rw [checkTarget_code refused]
    exact ⟨by decide, fun _ => rfl⟩
  | backup target failed =>
    rw [makeBackup_code failed]
    exact ⟨by decide, nofun⟩
  | parser target backup failed =>
    rw [parserOf_code failed]
    exact ⟨by decide, nofun⟩
  | files target backup failed left =>
    rw [filesOf_code plain target backup failed]
    exact ⟨by decide, nofun⟩
  | threads target backup failed left =>
    rw [startThreads_code failed]
    exact ⟨by decide, nofun⟩

/-! ### Runs without documented files -/

/-- A run that stops has done nothing, or has made or tried to make its backup. -/
theorem attempt_stopped (ran : attempt host options settings started env = (.ok (.error e), after)) :
    after = env ∨
      checkTarget options env.tree = .ok () ∧ after.tree = backedUp options settings env := by
  have ends := attempt_ends host options settings started env
  rw [ran] at ends
  cases ends with
  | target refused => exact Or.inl rfl
  | backup target failed => exact Or.inr ⟨target, rfl⟩
  | parser target backup failed => exact Or.inr ⟨target, rfl⟩
  | files target backup failed left => exact Or.inr ⟨target, left⟩
  | threads target backup failed left => exact Or.inr ⟨target, left⟩

/-- A run that stops has spared the sources: it stops before any file is worked on. -/
theorem attempt_stopped_spares (proper : env.tree.Proper)
    (plain : Path.IsName settings.backupFolder) (stays : RootStays options env.tree after.tree)
    (ran : attempt host options settings started env = (.ok (.error e), after)) :
    SparesSources options settings env.tree after.tree := by
  rcases attempt_stopped ran with rfl | ⟨target, left⟩
  · exact fun _ _ => rfl
  · rw [left] at stays ⊢
    exact backedUp_spares proper plain target stays

/-- A run that documented no file leaves its backup. -/
theorem Returned.unchanged (returned : Returned host options settings env summary after)
    (none : documentedPaths (work host options settings env).1 = []) :
    ConfinedTo [] (backedUp options settings env) after.tree := by
  have formatted := returned.formatted
  have worked := returned.worked
  rw [none] at formatted worked
  rw [formatAll_nil] at formatted
  obtain rfl := (Prod.mk.inj formatted).2
  exact worked

/-- A run that documented no file has spared the sources. -/
theorem Returned.spares (returned : Returned host options settings env summary after)
    (none : documentedPaths (work host options settings env).1 = []) (proper : env.tree.Proper)
    (plain : Path.IsName settings.backupFolder)
    (stays : RootStays options env.tree after.tree) :
    SparesSources options settings env.tree after.tree := by
  have unchanged := returned.unchanged none
  have spared := backedUp_spares proper plain returned.target (stays.before unchanged)
  intro names off
  rw [unchanged.contents names fun path absent => by cases absent]
  exact spared names off

/-! ### Roots that stay -/

/-- The path of the root does not pass through the backup folder: it leads to its directory without
that as well. -/
def RootApart (options : RunOptions) (settings : Settings) (top : Node) : Prop :=
  ∀ root, top.locate true options.root = .ok root →
    (top.erase (root ++ [settings.backupFolder])).locate true options.root = .ok root

/-- A backup that the way to the root does not pass leaves the root where it was. -/
theorem RootApart.backedUp_stays (apart : RootApart options settings env.tree)
    (plain : Path.IsName settings.backupFolder) (target : checkTarget options env.tree = .ok ()) :
    RootStays options env.tree (backedUp options settings env) := by
  intro root located
  cases enabled : options.backup with
  | true =>
    rw [backedUp_enabled enabled]
    exact Backup.backup_stays plain (leads_of_checkTarget target located) (apart root located)
  | false => rwa [backedUp_disabled enabled]

theorem RootApart.stopped_stays (apart : RootApart options settings env.tree)
    (plain : Path.IsName settings.backupFolder)
    (ran : attempt host options settings started env = (.ok (.error e), after)) :
    RootStays options env.tree after.tree := by
  rcases attempt_stopped ran with rfl | ⟨target, left⟩
  · exact fun _ located => located
  · rw [left]
    exact apart.backedUp_stays plain target

theorem RootApart.returned_stays (apart : RootApart options settings env.tree)
    (plain : Path.IsName settings.backupFolder)
    (returned : Returned host options settings env summary after)
    (none : documentedPaths (work host options settings env).1 = []) :
    RootStays options env.tree after.tree := by
  intro root located
  rw [(returned.unchanged none).locate_eq]
  exact apart.backedUp_stays plain returned.target root located

/-! ### Runs of one file -/

/-- The summary of a run of one file tells of a documented form that was not valid just if that is
what became of the file. -/
theorem Returned.validationFailure_isSome
    (returned : Returned host options settings env summary after) {path : String}
    (aim : options.target = .file path) :
    summary.validationFailure?.isSome = true ↔
      (work host options settings env).1 = [⟨path, .failed .validationFailed⟩] := by
  have files := returned.files
  unfold filesOf at files
  rw [aim] at files
  have paths : (work host options settings env).1.map (·.path) = [path] :=
    (Except.ok.inj files).symm
  obtain ⟨⟨_, status⟩, only, rfl⟩ := List.map_eq_singleton_iff.mp paths
  have failed := returned.accounts.failed
  rw [only] at failed ⊢
  cases status with
  | documented inserted =>
    have none : summary.failed = [] := List.map_eq_nil_iff.mp failed.symm
    simp [Summary.validationFailure?, none]
  | failed reason =>
    obtain ⟨f, one, same⟩ := List.map_eq_singleton_iff.mp failed.symm
    obtain rfl : f.reason = reason := Option.some.inj (congrArg FileOutcome.failure? same)
    simp [Summary.validationFailure?, one]

/-- A run of one file whose documented form was not valid documented nothing. -/
theorem Returned.documented_nil
    (returned : Returned host options settings env summary after) {path : String}
    (aim : options.target = .file path) {f : FailedFile}
    (failure : summary.validationFailure? = some f) :
    documentedPaths (work host options settings env).1 = [] := by
  rw [(returned.validationFailure_isSome aim).mp (by rw [failure]; rfl)]
  rfl

end

end AutoDoc.Run
