import AutoDoc.Proofs.Host.Script
import AutoDoc.Proofs.Run.Targets

/-!
# The backup stays pristine

At the end of a run the backup holds the bytes that files had at its start (`backup_stays_pristine`).
Discovery tells the backup folder by its name, as it is written in the settings, while a backup takes
any spelling with a single component; so this is for folders that are written as a plain name. The
root leads to one directory from start to end, as it does if its path meets no link or does not pass
through the backup folder, and it is given relative to the top of the tree.
-/

namespace AutoDoc.Run

open Node FileOutcome

/-- After a run with a backup, the copy of every file that stood below the root when the run began
has the bytes that the file had then, and no file in the backup was worked on. -/
theorem backup_stays_pristine {π : Type} (host : Host π) (options : RunOptions)
    (settings : Settings) (started : Calendar.Instant) (env after : Environment)
    (summary : Summary) (root : List String) (proper : env.tree.Proper)
    (plain : Path.IsName settings.backupFolder)
    (confined : ∀ f ∈ formattersOf options settings, f.Confined host)
    (whole : options.target = .repository) (enabled : options.backup = true)
    (located : env.tree.locate true options.root = .ok root)
    (steady : after.tree.locate true options.root = .ok root)
    (ran : run host options settings started env = (.ok summary, after)) :
    let paths := (work host options settings env).1.map (·.path)
    let backup := root ++ [settings.backupFolder]
    (∀ names content, ¬ [settings.backupFolder] <+: names →
      env.tree.contentAt (root ++ names) = some content →
      after.tree.contentAt (backup ++ names) = some content) ∧
    filesOf options settings (backedUp options settings env) = .ok paths ∧
    (∀ path ∈ paths, ∃ names, path = Path.joinNames options.root names ∧
      ¬ [settings.backupFolder] <+: names ∧
      ∃ content, env.tree.contentAt (root ++ names) = some content) ∧
    ∀ path ∈ paths, ∀ place, after.tree.locate true path = .ok place → ¬ backup <+: place := by
  intro paths backup
  have done := completed_of_run proper plain confined located steady ran
  have backed := done.backed_up enabled
  obtain ⟨found, _, joined, _, known⟩ | ⟨path, aim, _⟩ := done.target_cases
  · have known' : ∀ path ∈ paths, ∃ names, path = Path.joinNames options.root names ∧
        Discovery.Found settings (backedUp options settings env) root names := by
      intro path member
      have member : path ∈ (work host options settings env).1.map (·.path) := member
      rw [joined] at member
      obtain ⟨names, inFound, rfl⟩ := List.mem_map.mp member
      exact ⟨names, rfl, known names inFound⟩
    have off : ∀ path ∈ paths, ∀ place,
        (backedUp options settings env).locate true path = .ok place → ¬ backup <+: place := by
      intro path member place reached
      obtain ⟨names, rfl, file⟩ := known' path member
      rw [file.eq_of_locate done.leads_backedUp reached, List.prefix_append_right_inj]
      exact done.not_in_backup enabled file
    refine ⟨?_, done.returned.files, ?_, ?_⟩
    · intro names content outside held
      have copied := backed.copies names content outside held
      rw [List.append_cons] at copied
      rw [done.changed.contents, copied]
      intro path member reached
      obtain ⟨outcome, documented, rfl⟩ := List.mem_map.mp member
      refine off _ (List.mem_map_of_mem (List.mem_of_mem_filter documented)) _ reached ?_
      exact List.prefix_append _ _
    · intro path member
      obtain ⟨names, rfl, file⟩ := known' path member
      obtain ⟨content, held⟩ := (done.found_before file).file
      exact ⟨names, rfl, done.not_in_backup enabled file, content, contentAt_eq_some.mpr held⟩
    · intro path member place reached
      rw [done.changed.locate_eq] at reached
      exact off path member place reached
  · rw [whole] at aim
    cases aim

set_option maxRecDepth 100000 in
/-- A run that documents one file and formats it leaves the copy of the file alone. -/
theorem backup_stays_pristine_formatted :
    let source := "def f():\n 1\n".toUTF8
    let outline := "\x7b\"valid\":true,\"functions\":[\x7b\"name\":\"f\",\"start_line\":1," ++
      "\"end_line\":2\x7d]\x7d"
    let host := Script.host { parsing := [{ output := ⟨0, outline, ""⟩ }] }
    let options : RunOptions := { sortImports := false }
    let settings : Settings :=
      { backupFolder := "bk", formatter := ["formatter", "0", "", "", "#\n"] }
    ∃ summary after, run host options settings Calendar.epoch ⟨.dir [("a.py", .file source)], 0⟩ =
        (.ok summary, after) ∧
      summary.documented = 1 ∧ after.tree.contentAt ["bk", "a.py"] = some source := by
  intro source outline host options settings
  have ends : returns (fun summary after =>
      decide (summary.documented = 1) && decide (after.tree.locate true "." = .ok []))
      (run host options settings Calendar.epoch ⟨.dir [("a.py", .file source)], 0⟩) = true := by
    decide +kernel
  obtain ⟨summary, after, ran, ends⟩ := exists_of_returns ends
  simp only [Bool.and_eq_true, decide_eq_true_eq] at ends
  obtain ⟨copies, _⟩ := backup_stays_pristine host options settings Calendar.epoch
    ⟨.dir [("a.py", .file source)], 0⟩ after summary [] (by decide +kernel) (by decide +kernel)
    (fun f member => by
      obtain rfl : f = ⟨"black", settings.formatter⟩ := List.mem_singleton.mp member
      exact Script.confined _ (by decide))
    rfl rfl (by decide +kernel) ends.2 ran
  exact ⟨summary, after, ran, ends.1, copies ["a.py"] source (by decide) rfl⟩

set_option maxRecDepth 100000 in
/-- With a slash behind the name of the backup folder the copies are documented as well. And a root
that goes through the old backup leads elsewhere once that is gone, so that its files have no copy. -/
theorem backup_not_pristine :
    (let source := "def f():\n 1\n".toUTF8
      let tree : Node := .dir [("a.py", .file source)]
      let outline := "\x7b\"valid\":true,\"functions\":[\x7b\"name\":\"f\",\"start_line\":1," ++
        "\"end_line\":2\x7d]\x7d"
      let host := Script.host { parsing := [{ output := ⟨0, outline, ""⟩ }] }
      let options : RunOptions := { format := false, sortImports := false }
      let settings : Settings := { backupFolder := "bk/", included := ["bk"] }
      tree.Proper ∧
        filesOf options settings (backedUp options settings ⟨tree, 0⟩) = .ok ["./bk/a.py"] ∧
        ∃ summary after, run host options settings Calendar.epoch ⟨tree, 0⟩ = (.ok summary, after) ∧
          after.tree.contentAt ["bk", "a.py"] ≠ some source) ∧
    (let tree : Node := .dir [("r", .dir [("a.py", .file "x = 1\n".toUTF8),
        ("bk", .dir [("here", .link "..")])])]
      let options : RunOptions := { root := "r/bk/here", format := false, sortImports := false }
      let settings : Settings := { backupFolder := "bk" }
      tree.Proper ∧ tree.locate true options.root = .ok ["r"] ∧
        ∃ summary after, run (Script.host {}) options settings Calendar.epoch ⟨tree, 0⟩ =
            (.ok summary, after) ∧
          after.tree.contentAt ["r", "bk", "a.py"] = none) := by
  refine ⟨?_, ?_⟩
  · intro source tree outline host options settings
    have ends : returns (fun _ after => decide (after.tree.contentAt ["bk", "a.py"] ≠ some source))
        (run host options settings Calendar.epoch ⟨tree, 0⟩) = true := by decide +kernel
    obtain ⟨summary, after, ran, ends⟩ := exists_of_returns ends
    exact ⟨by decide +kernel, by decide +kernel, summary, after, ran, of_decide_eq_true ends⟩
  · intro tree options settings
    have ends : returns (fun _ after => (after.tree.contentAt ["r", "bk", "a.py"]).isNone)
        (run (Script.host {}) options settings Calendar.epoch ⟨tree, 0⟩) = true := by
      decide +kernel
    obtain ⟨summary, after, ran, ends⟩ := exists_of_returns ends
    exact ⟨by decide +kernel, by decide +kernel, summary, after, ran,
      Option.isNone_iff_eq_none.mp ends⟩

end AutoDoc.Run
