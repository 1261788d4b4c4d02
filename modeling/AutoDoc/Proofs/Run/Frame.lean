import AutoDoc.Proofs.Host.Script
import AutoDoc.Proofs.Run.Targets

/-!
# What a run leaves alone

A run changes no file outside its backup folder but those that it reports as documented
(`run_changes_documented_only`). A path that goes through the backup folder may lead elsewhere once
the backup is replaced, so this is for roots that lead to one directory from start to end, as those
do whose paths meet no link (`steady_of_linkFree`) or do not pass through the backup folder
(`steady_of_apart`).

Paths are relative to the top of the tree that is modelled: an absolute path, and one that steps above
the top, leads nowhere, so nothing is said of runs on such roots.
-/

namespace AutoDoc.Run

open Node FileOutcome

section

variable {π : Type} {host : Host π} {options : RunOptions} {settings : Settings}
  {env after : Environment} {summary : Summary} {root : List String}

/-- A file outside the backup folder keeps its bytes unless a documented path leads to it. -/
theorem Completed.frame (done : Completed host options settings env root summary after)
    (direct : ∀ path, options.target = .file path → env.tree.LinkFree path)
    {names : List String} (outside : ¬ root ++ [settings.backupFolder] <+: names)
    (other : ∀ path ∈ documentedPaths (work host options settings env).1,
      env.tree.locate true path ≠ .ok names) :
    after.tree.contentAt names = env.tree.contentAt names := by
  rw [← done.kept.contents names outside]
  refine done.changed.contents names fun path member located => other path member ?_
  refine done.locate_before direct ?_ located
  obtain ⟨outcome, documented, rfl⟩ := List.mem_map.mp member
  exact List.mem_map_of_mem (List.mem_of_mem_filter documented)

/-- No documented path leads to the file of a path that failed. -/
theorem Completed.failed_apart (done : Completed host options settings env root summary after)
    {f : FailedFile} (failed : f ∈ summary.failed) {names : List String}
    (located : env.tree.locate true f.path = .ok names) :
    ∀ path ∈ documentedPaths (work host options settings env).1,
      env.tree.locate true path ≠ .ok names := by
  intro path member same
  obtain ⟨documented, isDocumented, rfl⟩ := List.mem_map.mp member
  obtain ⟨inOutcomes, yes⟩ := List.mem_filter.mp isDocumented
  have listed : (⟨f.path, .failed f.reason⟩ : FileOutcome) ∈
      (work host options settings env).1.filter (!·.isDocumented) := by
    rw [done.returned.accounts.failed]
    exact List.mem_map_of_mem failed
  have inOutcomes' := List.mem_of_mem_filter listed
  have paths := done.path_unique (List.mem_map_of_mem inOutcomes)
    (List.mem_map_of_mem inOutcomes') same located
  have equal := List.inj_on_of_nodup_map done.nodup inOutcomes inOutcomes' paths
  rw [equal] at yes
  cases yes

end

/-- The frame of a whole run, for every proper tree and every host whose formatters keep to the paths
behind their arguments. Every file outside the backup folder has its bytes at the end, formatting
included, unless a path reported as documented led to it; so has every file that failed, for whatever
reason. No file is worked on twice, the summary accounts for each, and formatters are started on the
documented paths in their order, or not at all if there are none. -/
theorem run_changes_documented_only {π : Type} (host : Host π) (options : RunOptions)
    (settings : Settings) (started : Calendar.Instant) (env after : Environment)
    (summary : Summary) (root : List String) (proper : env.tree.Proper)
    (plain : Path.IsName settings.backupFolder)
    (confined : ∀ f ∈ formattersOf options settings, f.Confined host)
    (direct : ∀ path, options.target = .file path → env.tree.LinkFree path)
    (located : env.tree.locate true options.root = .ok root)
    (steady : after.tree.locate true options.root = .ok root)
    (ran : run host options settings started env = (.ok summary, after)) :
    let outcomes := (work host options settings env).1
    let worked := (work host options settings env).2
    let documented := documentedPaths outcomes
    let backup := root ++ [settings.backupFolder]
    (∀ names content, ¬ backup <+: names → env.tree.contentAt names = some content →
      (∀ path ∈ documented, env.tree.locate true path ≠ .ok names) →
      after.tree.contentAt names = some content) ∧
    (∀ f ∈ summary.failed, ∀ names content, env.tree.locate true f.path = .ok names →
      ¬ backup <+: names → env.tree.contentAt names = some content →
      after.tree.contentAt names = some content) ∧
    filesOf options settings (backedUp options settings env) = .ok (outcomes.map (·.path)) ∧
    (outcomes.map (·.path)).Nodup ∧ (summary.failed.map (·.path)).Nodup ∧
    summary.Accounts outcomes ∧
    (documented = [] → summary.formatting = [] ∧ after = worked) ∧
    (documented ≠ [] →
      Formats host documented (formattersOf options settings) worked summary.formatting after) := by
  intro outcomes worked documented backup
  have done := completed_of_run proper plain confined located steady ran
  have formatted := done.returned.formatted
  refine ⟨?_, ?_, done.returned.files, done.nodup, ?_, done.returned.accounts, ?_, ?_⟩
  · intro names content outside held other
    rw [done.frame direct outside other, held]
  · intro f failed names content reached outside held
    rw [done.frame direct outside (done.failed_apart failed reached), held]
  · rw [done.returned.accounts.failed_paths]
    exact done.nodup.sublist (List.filter_sublist.map _)
  · intro none
    have none : documentedPaths (work host options settings env).1 = [] := none
    rw [none, formatAll_nil] at formatted
    obtain ⟨reports, ended⟩ := Prod.mk.inj formatted
    exact ⟨reports.symm, ended.symm⟩
  · intro given
    have formats : Formats host documented (formattersOf options settings) worked
        (formatAll host documented (formattersOf options settings) worked).1
        (formatAll host documented (formattersOf options settings) worked).2 :=
      formatAll_formats given _ _
    rwa [formatted] at formats

set_option maxRecDepth 100000 in
/-- A run that documents one file and formats it leaves the file beside it alone. -/
theorem run_changes_documented_only_beside :
    let tree : Node := .dir [("a.py", .file "def f():\n 1\n".toUTF8), ("b.txt", .file "b".toUTF8)]
    let outline := "\x7b\"valid\":true,\"functions\":[\x7b\"name\":\"f\",\"start_line\":1," ++
      "\"end_line\":2\x7d]\x7d"
    let host := Script.host { parsing := [{ output := ⟨0, outline, ""⟩ }] }
    let options : RunOptions := { sortImports := false }
    let settings : Settings :=
      { backupFolder := "bk", formatter := ["formatter", "0", "", "", "#\n"] }
    ∃ summary after, run host options settings Calendar.epoch ⟨tree, 0⟩ = (.ok summary, after) ∧
      summary.documented = 1 ∧ after.tree.contentAt ["b.txt"] = some "b".toUTF8 ∧
      summary.Accounts (work host options settings ⟨tree, 0⟩).1 := by
  intro tree outline host options settings
  have ends : returns (fun summary after =>
      decide (summary.documented = 1) && decide (after.tree.locate true "." = .ok []))
      (run host options settings Calendar.epoch ⟨tree, 0⟩) = true := by decide +kernel
  obtain ⟨summary, after, ran, ends⟩ := exists_of_returns ends
  simp only [Bool.and_eq_true, decide_eq_true_eq] at ends
  obtain ⟨frame, _, files, _, _, accounts, _⟩ := run_changes_documented_only host options settings
    Calendar.epoch ⟨tree, 0⟩ after summary [] (by decide +kernel) (by decide +kernel)
    (fun f member => by
      obtain rfl : f = ⟨"black", settings.formatter⟩ := List.mem_singleton.mp member
      exact Script.confined _ (by decide))
    (fun path aim => by cases aim) (by decide +kernel) ends.2 ran
  refine ⟨summary, after, ran, ends.1, ?_, accounts⟩
  refine frame ["b.txt"] "b".toUTF8 (by decide) rfl ?_
  intro path member
  have found : filesOf options settings (backedUp options settings ⟨tree, 0⟩) =
      .ok ["./a.py"] := by decide +kernel
  obtain ⟨outcome, documented, rfl⟩ := List.mem_map.mp member
  have given := List.mem_map_of_mem (f := (·.path)) (List.mem_of_mem_filter documented)
  rw [← Except.ok.inj (found.symm.trans files)] at given
  rw [List.mem_singleton.mp given]
  decide +kernel

set_option maxRecDepth 100000 in
/-- A root that goes through the old backup leads elsewhere once that is gone: then a file that
stands neither in the backup folder nor among the files to document is written over. -/
theorem run_changes_other_file :
    let tree : Node := .dir [("r", .dir [("bk", .dir [("l", .link ".")]),
      ("out.txt", .file "old\n".toUTF8),
      ("r", .dir [("a.txt", .file "new\n".toUTF8),
        ("bk", .dir [("a.txt", .link "../../out.txt")])])])]
    let options : RunOptions :=
      { root := "r/bk/l/../../r", format := false, sortImports := false }
    let settings : Settings := { backupFolder := "bk" }
    let host := Script.host {}
    tree.Proper ∧ Path.IsName settings.backupFolder ∧ formattersOf options settings = [] ∧
      tree.locate true options.root = .ok ["r"] ∧ ¬ ["r", "bk"] <+: ["r", "out.txt"] ∧
      (work host options settings ⟨tree, 0⟩).1 = [] ∧
      tree.contentAt ["r", "out.txt"] = some "old\n".toUTF8 ∧
      ∃ summary after, run host options settings Calendar.epoch ⟨tree, 0⟩ = (.ok summary, after) ∧
        after.tree.contentAt ["r", "out.txt"] = some "new\n".toUTF8 := by
  intro tree options settings host
  have ends : returns (fun _ after =>
      decide (after.tree.contentAt ["r", "out.txt"] = some "new\n".toUTF8))
      (run host options settings Calendar.epoch ⟨tree, 0⟩) = true := by decide +kernel
  obtain ⟨summary, after, ran, ends⟩ := exists_of_returns ends
  exact ⟨by decide +kernel, by decide +kernel, rfl, by decide +kernel, by decide,
    by decide +kernel, rfl, summary, after, ran, of_decide_eq_true ends⟩

end AutoDoc.Run
