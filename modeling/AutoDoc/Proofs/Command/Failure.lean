import AutoDoc.Command.Execution
import AutoDoc.Host.Script
import AutoDoc.Proofs.Json.RoundTrip
import AutoDoc.Proofs.Run.Stopping

/-!
# Commands that fail

A command that ends with a status other than zero has spared the sources and says why in the last
line of its output (`failing_command_spares_sources`). There are five ways in which a command can end
(`Performs`); the error that is reported and the status are told apart only by `Execution.failed`,
which takes both from the same error. The fifth is a fault while the run is summed up, which leaves
nothing to report; a clock whose time can be written and blocks that can be counted keep it out
(`Performs.not_faulted`).

Paths are relative to the top of the tree that is modelled; a root that is absolute or steps above the
top leads nowhere, and the command fails with status 3.
-/

namespace AutoDoc

/-! ### Reports of errors -/

theorem RunError.code_mem (e : RunError) : e.code ∈ [2, 3, 4, 5, 10] := by
  cases e <;> simp [code]

theorem RunError.code_ne_zero (e : RunError) : e.code ≠ 0 := by
  cases e <;> simp [code]

theorem RunError.isPlain_toJson (e : RunError) : e.toJson.isPlain = true := by
  have small : e.code ≤ 10 := by
    have known := e.code_mem
    simp only [List.mem_cons, List.not_mem_nil, or_false] at known
    omega
  have code : (Json.nat e.code).isPlain = true :=
    Json.isPlain_nat (Nat.lt_of_le_of_lt small (by decide))
  cases path : e.path? <;> simp [toJson, path, Json.isPlain, Json.membersPlain, code]

theorem RunError.depth_toJson (e : RunError) : e.toJson.depth ≤ 127 := by
  cases path : e.path? <;>
    simp [toJson, path, Json.depth, Json.membersDepth, Json.nat]

namespace Command

/-- The last line of a text whose lines all end. -/
def lastLine? (text : String) : Option String :=
  match text.toList.reverse with
  | '\n' :: rest => some (String.ofList (rest.takeWhile (· != '\n')).reverse)
  | _ => none

/-- A text ends with the end of a line, unless it is empty. -/
def EndsLine (text : String) : Prop := text = "" ∨ text.toList.getLast? = some '\n'

/-- A line that was printed last is the last one, whatever whole lines were printed before it. -/
theorem lastLine?_append {before line : String} (whole : EndsLine before)
    (single : '\n' ∉ line.toList) : lastLine? (before ++ line ++ "\n") = some line := by
  have inLine : ∀ c ∈ line.toList.reverse, (c != '\n') = true := by
    intro c member
    simp only [bne_iff_ne, ne_eq]
    rintro rfl
    exact single (List.mem_reverse.mp member)
  have ends : before.toList.reverse.takeWhile (· != '\n') = [] := by
    rcases whole with rfl | last
    · rfl
    · rw [← List.head?_reverse] at last
      obtain ⟨rest, reversed⟩ := List.head?_eq_some_iff.mp last
      rw [reversed]
      rfl
  have reversed : (before ++ line ++ "\n").toList.reverse =
      '\n' :: (line.toList.reverse ++ before.toList.reverse) := by simp
  rw [lastLine?, reversed]
  change some (String.ofList ((line.toList.reverse ++ before.toList.reverse).takeWhile
    (· != '\n')).reverse) = some line
  rw [List.takeWhile_append_of_pos inLine, ends, List.append_nil, List.reverse_reverse,
    String.ofList_toList]

/-- The last line of an output is an error in the compact layout, with the status as its code. -/
structure Reports (execution : Execution) (report : Json) : Prop where
  line : lastLine? execution.stdout = some report.compact
  readable : Json.parse? report.compact = some report
  error : report.get? "status" = some (.str "error")
  code : (report.get? "error").bind (Json.get? "code") = some (.nat execution.status)

theorem Execution.failed_status_mem (before : String) (e : RunError) :
    (Execution.failed before e).status ∈ [2, 3, 4, 5, 10] := e.code_mem

theorem Execution.failed_status_ne_zero (before : String) (e : RunError) :
    (Execution.failed before e).status ≠ 0 := e.code_ne_zero

theorem Execution.failed_ne_faulted (before : String) (e : RunError) :
    Execution.failed before e ≠ .faulted := by
  intro same
  have known := Execution.failed_status_mem before e
  rw [same] at known
  exact absurd known (by decide)

theorem Reports.failed {before : String} (whole : EndsLine before)
    (e : RunError) : Reports (.failed before e) e.toJson where
  line := lastLine?_append whole (Json.newline_not_mem_compact _ e.isPlain_toJson)
  readable := Json.parse?_compact e.isPlain_toJson e.depth_toJson
  error := rfl
  code := rfl

/-! ### Summaries -/

theorem getLast?_append {start rest : String} (whole : rest.toList.getLast? = some '\n') :
    (start ++ rest).toList.getLast? = some '\n' := by
  rw [String.toList_append, List.getLast?_append, whole]
  rfl

/-- Every line that is printed of a summary ends. -/
theorem render_endsLine (layout : Layout) (s : Summary) : EndsLine (render layout s) := by
  refine Or.inr ?_
  cases layout with
  | json => exact getLast?_append rfl
  | text =>
    unfold render Summary.text
    dsimp only
    split
    next => exact getLast?_append rfl
    next some =>
      refine getLast?_append ?_
      have given : s.failed.reverse ≠ [] := by simpa using some
      obtain ⟨last, others, reversed⟩ := List.exists_cons_of_ne_nil given
      rw [String.toList_join, List.getLast?_flatMap, ← List.map_reverse, reversed, List.map_cons,
        List.findSome?_cons, getLast?_append rfl]

/-! ### Ends of a command -/

def Invocation.settings (invocation : Invocation) (top : Node) : Settings :=
  (Settings.ofRoot top invocation.options.root).withWorkers invocation.workers

section

variable {π : Type} {host : Host π} {invocation : Invocation} {started : Calendar.Instant}
  {env after : Environment} {execution : Execution}

/-- The ends of a command. -/
inductive Performs (host : Host π) (invocation : Invocation) (started : Calendar.Instant)
    (env : Environment) : Execution → Environment → Prop
  | noWorkers (zero : invocation.workers = some 0) :
    Performs host invocation started env
      (.failed "" (.invalidArguments "--workers must be at least 1")) env
  | stopped {e : RunError} {after : Environment} (positive : invocation.workers ≠ some 0)
    (ran : Run.attempt host invocation.options (invocation.settings env.tree) started env =
      (.ok (.error e), after)) :
    Performs host invocation started env (.failed "" e) after
  | faulted {fault : Fault} {after : Environment} (positive : invocation.workers ≠ some 0)
    (ran : Run.attempt host invocation.options (invocation.settings env.tree) started env =
      (.error fault, after)) :
    Performs host invocation started env .faulted after
  | invalid {summary : Summary} {after : Environment} {path : String} {f : FailedFile}
    (positive : invocation.workers ≠ some 0)
    (ran : run host invocation.options (invocation.settings env.tree) started env =
      (.ok summary, after))
    (aim : invocation.options.target = .file path)
    (failure : summary.validationFailure? = some f) :
    Performs host invocation started env
      (.failed (render invocation.output summary) (.validationFailed f.path)) after
  | done {summary : Summary} {after : Environment} (positive : invocation.workers ≠ some 0)
    (ran : run host invocation.options (invocation.settings env.tree) started env =
      (.ok summary, after))
    (valid : ∀ path, invocation.options.target = .file path →
      summary.validationFailure? = none) :
    Performs host invocation started env ⟨render invocation.output summary, 0⟩ after

/-- Every command ends in one of the ways that `Performs` lists. -/
theorem perform_performs
    (performed : perform host invocation started env = (execution, after)) :
    Performs host invocation started env execution after := by
  unfold perform at performed
  split at performed
  next zero =>
    cases performed
    exact .noWorkers (beq_iff_eq.mp zero)
  next positive =>
    have positive : invocation.workers ≠ some 0 := by simpa using positive
    dsimp only at performed
    rcases ran : Run.attempt host invocation.options (invocation.settings env.tree) started env with
      ⟨fault | e | summary, left⟩
    · rw [Invocation.settings] at ran
      rw [ran] at performed
      cases performed
      exact .faulted positive ran
    · rw [Invocation.settings] at ran
      rw [ran] at performed
      cases performed
      exact .stopped positive ran
    · rw [Invocation.settings] at ran
      rw [ran] at performed
      dsimp only [conclude] at performed
      replace ran := Run.run_of_attempt ran
      cases aim : invocation.options.target with
      | repository =>
        rw [aim] at performed
        cases performed
        exact .done positive ran fun path other => by rw [aim] at other; cases other
      | file path =>
        rw [aim] at performed
        cases failure : summary.validationFailure? with
        | none =>
          simp only [errorOf?, failure, Option.map_none] at performed
          cases performed
          exact .done positive ran fun _ _ => failure
        | some f =>
          simp only [errorOf?, failure, Option.map_some] at performed
          cases performed
          exact .invalid positive ran aim failure

/-- A command that fails without a fault reports its error in the last line. -/
theorem Performs.reports (performs : Performs host invocation started env execution after)
    (failed : execution.status ≠ 0) (whole : execution ≠ .faulted) :
    ∃ report, Reports execution report ∧ execution.status ∈ [2, 3, 4, 5, 10] := by
  cases performs with
  | noWorkers zero => exact ⟨_, .failed (Or.inl rfl) _, Execution.failed_status_mem _ _⟩
  | stopped positive ran => exact ⟨_, .failed (Or.inl rfl) _, Execution.failed_status_mem _ _⟩
  | faulted positive ran => exact absurd rfl whole
  | invalid positive ran aim failure =>
    exact ⟨_, .failed (render_endsLine _ _) _, Execution.failed_status_mem _ _⟩
  | done positive ran valid => exact absurd rfl failed

/-- No fault ends a command while its blocks can be counted and its time can be written. -/
theorem Performs.not_faulted (performs : Performs host invocation started env execution after)
    (told : (Calendar.timestamp started).isOk = true)
    (counted : Run.Worked host invocation.options (invocation.settings env.tree) env →
      Run.Counted host invocation.options (invocation.settings env.tree) env) :
    execution ≠ .faulted := by
  cases performs with
  | noWorkers zero => exact Execution.failed_ne_faulted _ _
  | stopped positive ran => exact Execution.failed_ne_faulted _ _
  | faulted positive ran =>
    have ends := Run.attempt_ends host invocation.options (invocation.settings env.tree) started env
    rw [ran] at ends
    cases ends with
    | summary worked failed =>
      obtain ⟨summary, summed⟩ := (counted worked).ofOutcomes_ok told
      rw [summed] at failed
      cases failed
  | invalid positive ran aim failure => exact Execution.failed_ne_faulted _ _
  | done positive ran valid =>
    intro same
    cases congrArg Execution.status same

/-- A command succeeds just if its run returned a summary, and this is not that of a single file
whose documented form was not valid. -/
theorem Performs.status_eq_zero_iff
    (performs : Performs host invocation started env execution after) :
    execution.status = 0 ↔ invocation.workers ≠ some 0 ∧ ∃ summary,
      (run host invocation.options (invocation.settings env.tree) started env).1 = .ok summary ∧
      ¬ ∃ path, invocation.options.target = .file path ∧
        (Run.work host invocation.options (invocation.settings env.tree) env).1 =
          [⟨path, .failed .validationFailed⟩] := by
  cases performs with
  | noWorkers zero =>
    exact iff_of_false (Execution.failed_status_ne_zero _ _) fun given => given.1 zero
  | stopped positive ran =>
    refine iff_of_false (Execution.failed_status_ne_zero _ _) ?_
    rintro ⟨_, summary, returned, _⟩
    rw [run, ran] at returned
    cases returned
  | faulted positive ran =>
    refine iff_of_false (by decide) ?_
    rintro ⟨_, summary, returned, _⟩
    rw [run, ran] at returned
    cases returned
  | @invalid summary _ path f positive ran aim failure =>
    refine iff_of_false (Execution.failed_status_ne_zero _ _) ?_
    rintro ⟨_, _, _, valid⟩
    refine valid ⟨path, aim, ?_⟩
    exact ((Run.run_returned ran).validationFailure_isSome aim).mp (by rw [failure]; rfl)
  | @done summary _ positive ran valid =>
    refine iff_of_true rfl ⟨positive, summary, by rw [ran], ?_⟩
    rintro ⟨path, aim, only⟩
    have failure := ((Run.run_returned ran).validationFailure_isSome aim).mpr only
    rw [valid path aim] at failure
    cases failure

/-- A command that fails without a fault has spared the sources. -/
theorem Performs.spares (performs : Performs host invocation started env execution after)
    (proper : env.tree.Proper)
    (plain : Path.IsName (invocation.settings env.tree).backupFolder)
    (stays : Run.RootStays invocation.options env.tree after.tree)
    (failed : execution.status ≠ 0) (whole : execution ≠ .faulted) :
    Run.SparesSources invocation.options (invocation.settings env.tree) env.tree after.tree := by
  cases performs with
  | noWorkers zero => exact fun _ _ => rfl
  | stopped positive ran => exact Run.attempt_stopped_spares proper plain stays ran
  | faulted positive ran => exact absurd rfl whole
  | invalid positive ran aim failure =>
    have returned := Run.run_returned ran
    exact returned.spares (returned.documented_nil aim failure) proper plain stays
  | done positive ran valid => exact absurd rfl failed

/-- The root leads to the same directory after a command that fails without a fault, if its path does
not pass through the backup folder. -/
theorem Performs.stays (performs : Performs host invocation started env execution after)
    (plain : Path.IsName (invocation.settings env.tree).backupFolder)
    (apart : Run.RootApart invocation.options (invocation.settings env.tree) env.tree)
    (failed : execution.status ≠ 0) (whole : execution ≠ .faulted) :
    Run.RootStays invocation.options env.tree after.tree := by
  cases performs with
  | noWorkers zero => exact fun _ located => located
  | stopped positive ran => exact apart.stopped_stays plain ran
  | faulted positive ran => exact absurd rfl whole
  | invalid positive ran aim failure =>
    have returned := Run.run_returned ran
    exact apart.returned_stays plain returned (returned.documented_nil aim failure)
  | done positive ran valid => exact absurd rfl failed

/-- With status 3 a command has done nothing. -/
theorem Performs.untouched (performs : Performs host invocation started env execution after)
    (plain : Path.IsName (invocation.settings env.tree).backupFolder)
    (missing : execution.status = 3) : after = env := by
  cases performs with
  | noWorkers zero => rfl
  | stopped positive ran => exact (Run.attempt_stopped_code plain ran).2 missing
  | faulted positive ran => cases missing
  | invalid positive ran aim failure => cases missing
  | done positive ran valid => cases missing

end

/-- A command line that is accepted ends in one of two ways. It succeeds just if its run returned a
summary that is not that of a single file whose documented form was not valid. Otherwise it fails:
its last line is an error with the status as its code, and if the root leads to the same directory as
before, every file outside the backup folder has its bytes. With status 3, and with no workers,
nothing was done at all. The blocks that the run inserts can be counted in 64 bits, as they can in
every tree with fewer than `2 ^ 32` nodes whose root stays (`Run.counted_of_small`), and the clock
shows a time that can be written. -/
theorem failing_command_spares_sources {π : Type} (host : Host π) (args : List String)
    (started : Calendar.Instant) (env after : Environment) (execution : Execution)
    (invocation : Invocation) (proper : env.tree.Proper)
    (counted : Run.Worked host invocation.options (invocation.settings env.tree) env →
      Run.Counted host invocation.options (invocation.settings env.tree) env)
    (told : (Calendar.timestamp started).isOk = true)
    (plain : Path.IsName (invocation.settings env.tree).backupFolder)
    (parsed : parse args = .ok invocation)
    (executed : execute host args started env = (execution, after)) :
    let options := invocation.options
    let settings := invocation.settings env.tree
    (execution.status ≠ 0 →
      (∃ report, Reports execution report ∧ execution.status ∈ [2, 3, 4, 5, 10]) ∧
      (Run.RootStays options env.tree after.tree →
        Run.SparesSources options settings env.tree after.tree)) ∧
    (execution.status = 3 → after = env) ∧
    (invocation.workers = some 0 → execution.status = 2 ∧ after = env) ∧
    (execution.status = 0 ↔ invocation.workers ≠ some 0 ∧ ∃ summary,
      (run host options settings started env).1 = .ok summary ∧
      ¬ ∃ path, options.target = .file path ∧
        (Run.work host options settings env).1 = [⟨path, .failed .validationFailed⟩]) := by
  intro options settings
  have performs : Performs host invocation started env execution after := by
    rw [execute, parsed] at executed
    exact perform_performs executed
  have whole := performs.not_faulted told counted
  refine ⟨fun failed => ⟨performs.reports failed whole, fun stays =>
    performs.spares proper plain stays failed whole⟩, performs.untouched plain, fun zero => ?_,
    performs.status_eq_zero_iff⟩
  cases performs with
  | noWorkers => exact ⟨rfl, rfl⟩
  | stopped positive => exact absurd zero positive
  | faulted positive => exact absurd zero positive
  | invalid positive => exact absurd zero positive
  | done positive => exact absurd zero positive

set_option maxRecDepth 100000 in
/-- Without an interpreter a command fails behind its backup and leaves the file alone. -/
theorem failing_command_spares_sources_unusable :
    let source := "def f():\n    return 1\n".toUTF8
    let settings := "[tugdoc]\nbackup_folder = \"bk\"\npython = \"nope\"\n".toUTF8
    let tree : Node := .dir [("a.py", .file source), ("tugdoc.toml", .file settings)]
    ∃ execution after, execute (Script.host {}) ["--repo"] Calendar.epoch ⟨tree, 0⟩ =
        (execution, after) ∧
      execution.status = 2 ∧ (∃ report, Reports execution report) ∧
      after.tree.contentAt ["bk", "a.py"] = some source ∧
      after.tree.contentAt ["a.py"] = some source := by
  intro source settings tree
  have ends : (fun result : Execution × Environment => decide (result.1.status = 2) &&
      decide (result.2.tree.locate true "." = .ok []) &&
      decide (result.2.tree.contentAt ["bk", "a.py"] = some source))
      (execute (Script.host {}) ["--repo"] Calendar.epoch ⟨tree, 0⟩) = true := by decide +kernel
  rcases executed : execute (Script.host {}) ["--repo"] Calendar.epoch ⟨tree, 0⟩ with
    ⟨execution, after⟩
  rw [executed] at ends
  simp only [Bool.and_eq_true, decide_eq_true_eq] at ends
  obtain ⟨⟨status, stays⟩, copied⟩ := ends
  obtain ⟨failed, _⟩ := failing_command_spares_sources (Script.host {}) ["--repo"] Calendar.epoch
    ⟨tree, 0⟩ after execution ⟨{}, none, .text⟩ (by decide +kernel) (fun _ => by decide +kernel)
    (by decide +kernel) (by decide +kernel) (by decide +kernel) executed
  obtain ⟨⟨report, reports, _⟩, spares⟩ := failed (by rw [status]; decide)
  refine ⟨execution, after, rfl, status, ⟨report, reports⟩, copied, ?_⟩
  refine (spares ?_ ["a.py"] ?_).trans rfl
  · intro root located
    have here : tree.locate true "." = .ok [] := by decide +kernel
    obtain rfl := Except.ok.inj (here.symm.trans located)
    exact stays
  · intro root located
    have here : tree.locate true "." = .ok [] := by decide +kernel
    have folder : (Invocation.settings ⟨{}, none, .text⟩ tree).backupFolder = "bk" := by
      decide +kernel
    obtain rfl := Except.ok.inj (here.symm.trans located)
    rw [folder]
    decide

set_option maxRecDepth 100000 in
/-- A root that goes through the old backup leads elsewhere once that is gone: a command that fails
after that has written over a file outside the backup folder. -/
theorem failing_command_changes_other_file :
    let settings := "[tugdoc]\nbackup_folder = \"bk\"\npython = \"nope\"\n".toUTF8
    let tree : Node := .dir [("r", .dir [("bk", .dir [("l", .link ".")]),
      ("out.txt", .file "old\n".toUTF8),
      ("r", .dir [("a.txt", .file "new\n".toUTF8),
        ("bk", .dir [("a.txt", .link "../../out.txt")])]),
      ("tugdoc.toml", .file settings)])]
    let args := ["--repo", "--root", "r/bk/l/../../r", "--no-format", "--no-isort"]
    let invocation : Invocation :=
      ⟨{ root := "r/bk/l/../../r", format := false, sortImports := false }, none, .text⟩
    let result := execute (Script.host {}) args Calendar.epoch ⟨tree, 0⟩
    tree.Proper ∧ parse args = .ok invocation ∧
      (invocation.settings tree).backupFolder = "bk" ∧
      tree.locate true invocation.options.root = .ok ["r"] ∧
      ¬ ["r", "bk"] <+: ["r", "out.txt"] ∧ result.1.status = 2 ∧
      tree.contentAt ["r", "out.txt"] = some "old\n".toUTF8 ∧
      result.2.tree.contentAt ["r", "out.txt"] = some "new\n".toUTF8 := by
  dsimp only
  refine ⟨?_, ?_, ?_, ?_, ?_, ?_, ?_, ?_⟩
  all_goals decide +kernel

end Command

end AutoDoc
