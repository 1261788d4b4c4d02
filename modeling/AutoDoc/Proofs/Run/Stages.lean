import AutoDoc.Proofs.Run.Confinement
import Mathlib.Algebra.Ring.Nat

/-!
# The stages of a run

A run that returns a summary has gone through all its stages (`run_returned`): the target was good,
the backup was made, files were found and each was worked on in its turn. Its summary accounts for
every one of them (`ofOutcomes_accounts`).
-/

namespace AutoDoc

open FileOutcome

/-! ### Accounts -/

/-- A summary tells of every file just once. -/
structure Summary.Accounts (summary : Summary) (outcomes : List FileOutcome) : Prop where
  discovered : summary.discovered = outcomes.length
  documented : summary.documented = (documentedPaths outcomes).length
  divided : summary.discovered = summary.documented + summary.failed.length
  inserted : summary.inserted = (outcomes.map Summary.insertedBy).sum
  /-- The files that were not documented are listed in their order, with the reasons. -/
  failed : outcomes.filter (!·.isDocumented) =
    summary.failed.map fun f => ⟨f.path, .failed f.reason⟩

theorem Summary.sum64_ok {total result : Nat} {numbers : List Nat}
    (summed : Summary.sum64 total numbers = .ok result) : result = total + numbers.sum := by
  induction numbers generalizing total with
  | nil => exact (Except.ok.inj summed).symm
  | cons n rest ih =>
    unfold Summary.sum64 at summed
    split at summed
    · rw [ih summed, List.sum_cons, Nat.add_assoc]
    · cases summed

/-- The failures that a summary lists are the outcomes that are no successes. -/
theorem filter_failed (outcomes : List FileOutcome) :
    outcomes.filter (!·.isDocumented) =
      (outcomes.filterMap fun o => o.failure?.map (FailedFile.mk o.path)).map
        fun f => ⟨f.path, .failed f.reason⟩ := by
  induction outcomes with
  | nil => rfl
  | cons outcome rest ih =>
    rcases outcome with ⟨path, inserted | reason⟩
    · simpa [isDocumented, failure?] using ih
    · simpa [isDocumented, failure?] using ih

/-- What outcomes are summed up to accounts for them. -/
theorem Summary.ofOutcomes_accounts {started : Calendar.Instant} {outcomes : List FileOutcome}
    {summary : Summary} (summed : Summary.ofOutcomes started outcomes = .ok summary) :
    summary.Accounts outcomes := by
  obtain ⟨inserted, counted, rest⟩ := ok_of_bind summed
  obtain ⟨startedAt, _, made⟩ := ok_of_bind rest
  cases made
  have failed := filter_failed outcomes
  have parts := List.length_eq_countP_add_countP (·.isDocumented) (l := outcomes)
  refine ⟨rfl, ?_, ?_, ?_, failed⟩
  · rw [documentedPaths, List.length_map, List.countP_eq_length_filter]
  · have lengths := congrArg List.length failed
    rw [List.length_map, ← List.countP_eq_length_filter] at lengths
    dsimp only
    rw [← lengths]
    simpa using parts
  · simpa using sum64_ok counted

/-- The failed files that are listed are those of the outcomes, in their order. -/
theorem Summary.Accounts.failed_paths {summary : Summary} {outcomes : List FileOutcome}
    (accounts : summary.Accounts outcomes) :
    summary.failed.map (·.path) = (outcomes.filter (!·.isDocumented)).map (·.path) := by
  rw [accounts.failed, List.map_map]
  rfl

/-! ### Stages -/

namespace Run

/-- Whether a run returned a summary, and `check` holds of it and of what was left. -/
def returns (check : Summary → Environment → Bool) :
    Except RunError Summary × Environment → Bool
  | (.ok summary, after) => check summary after
  | (.error _, _) => false

theorem exists_of_returns {check : Summary → Environment → Bool}
    {result : Except RunError Summary × Environment} (checked : returns check result = true) :
    ∃ summary after, result = (.ok summary, after) ∧ check summary after = true := by
  rcases result with ⟨_ | summary, after⟩
  · cases checked
  · exact ⟨summary, after, rfl, checked⟩

section

variable {π : Type} (host : Host π) (options : RunOptions) (settings : Settings)
  (started : Calendar.Instant) (env : Environment)

/-- The tree in which files are looked for. -/
def backedUp : Node := (makeBackup options settings env.tree).2

/-- What became of the files of a run, and what was left before formatting. -/
def work : List FileOutcome × Environment :=
  let (service, next) :=
    startService host options settings { env with tree := backedUp options settings env }
  match parserOf host settings (backedUp options settings env),
      filesOf options settings (backedUp options settings env) with
  | .ok parser, .ok files => documentWith parser service settings.indentWidth files next
  | _, _ => ([], next)

/-- Starting the toolkit writes no files. -/
theorem startService_tree : (startService host options settings env).2.tree = env.tree := by
  unfold startService
  split <;> rfl

variable {host options settings started env}

/-- Files were found and worked on in a tree in which the backup was made. -/
structure Worked (host : Host π) (options : RunOptions) (settings : Settings) (env : Environment) :
    Prop where
  target : checkTarget options env.tree = .ok ()
  backup : (makeBackup options settings env.tree).1 = .ok ()
  files : filesOf options settings (backedUp options settings env) =
    .ok ((work host options settings env).1.map (·.path))
  worked : Node.ConfinedTo (documentedPaths (work host options settings env).1)
    (backedUp options settings env) (work host options settings env).2.tree

/-- The ends of a run, in the order of its stages. Only the last two come after files were written:
a fault and a summary. -/
inductive Ends (host : Host π) (options : RunOptions) (settings : Settings)
    (started : Calendar.Instant) (env : Environment) :
    Except Fault (Except RunError Summary) × Environment → Prop
  | target {e : RunError} (refused : checkTarget options env.tree = .error e) :
    Ends host options settings started env (.ok (.error e), env)
  | backup {e : RunError} (target : checkTarget options env.tree = .ok ())
    (failed : (makeBackup options settings env.tree).1 = .error e) :
    Ends host options settings started env
      (.ok (.error e), { env with tree := backedUp options settings env })
  | parser {e : RunError} (target : checkTarget options env.tree = .ok ())
    (backup : (makeBackup options settings env.tree).1 = .ok ())
    (failed : parserOf host settings (backedUp options settings env) = .error e) :
    Ends host options settings started env
      (.ok (.error e), { env with tree := backedUp options settings env })
  | files {e : RunError} {after : Environment} (target : checkTarget options env.tree = .ok ())
    (backup : (makeBackup options settings env.tree).1 = .ok ())
    (failed : filesOf options settings (backedUp options settings env) = .error e)
    (left : after.tree = backedUp options settings env) :
    Ends host options settings started env (.ok (.error e), after)
  | threads {e : RunError} {after : Environment} (target : checkTarget options env.tree = .ok ())
    (backup : (makeBackup options settings env.tree).1 = .ok ())
    (failed : startThreads host settings = .error e)
    (left : after.tree = backedUp options settings env) :
    Ends host options settings started env (.ok (.error e), after)
  | summary {fault : Fault} (worked : Worked host options settings env)
    (failed : Summary.ofOutcomes started (work host options settings env).1 = .error fault) :
    Ends host options settings started env
      (.error fault, (work host options settings env).2)
  | returned {summary : Summary} {reports : List FormatReport} {after : Environment}
    (worked : Worked host options settings env)
    (summed : Summary.ofOutcomes started (work host options settings env).1 = .ok summary)
    (formatted : formatAll host (documentedPaths (work host options settings env).1)
      (formattersOf options settings) (work host options settings env).2 = (reports, after)) :
    Ends host options settings started env (.ok (.ok { summary with formatting := reports }), after)

/-- Totals that do not fit end the work before any formatter is started. -/
theorem documentAndFormat_fault {parser : Parser} {service : Option (HostedService π)}
    {files : List String} {fault : Fault} {worked : List FileOutcome × Environment}
    (made : documentWith parser service settings.indentWidth files env = worked)
    (summed : Summary.ofOutcomes started worked.1 = .error fault) :
    documentAndFormat host options settings started parser service files env =
      (.error fault, worked.2) := by
  rw [documentAndFormat, made]
  dsimp only
  rw [summed]

/-- With totals that fit, the formatters are given the files that were documented. -/
theorem documentAndFormat_ok {parser : Parser} {service : Option (HostedService π)}
    {files : List String} {summary : Summary} {worked : List FileOutcome × Environment}
    (made : documentWith parser service settings.indentWidth files env = worked)
    (summed : Summary.ofOutcomes started worked.1 = .ok summary) :
    documentAndFormat host options settings started parser service files env =
      (.ok { summary with
          formatting := (formatAll host (documentedPaths worked.1) (formattersOf options settings)
            worked.2).1 },
        (formatAll host (documentedPaths worked.1) (formattersOf options settings) worked.2).2) := by
  rw [documentAndFormat, made]
  dsimp only
  rw [summed]
  rfl

variable (host options settings started env) in
/-- Every run ends in one of the ways that `Ends` lists. -/
theorem attempt_ends :
    Ends host options settings started env (attempt host options settings started env) := by
  unfold attempt
  cases target : checkTarget options env.tree with
  | error e => exact .target target
  | ok =>
    dsimp only
    rcases made : makeBackup options settings env.tree with ⟨result, tree⟩
    obtain rfl : tree = backedUp options settings env := by rw [backedUp, made]
    cases result with
    | error e => exact .backup target (by rw [made])
    | ok =>
      have backup : (makeBackup options settings env.tree).1 = .ok () := by rw [made]
      dsimp only
      cases found : parserOf host settings (backedUp options settings env) with
      | error e => exact .parser target backup found
      | ok parser =>
        dsimp only
        have next := startService_tree host options settings
          { env with tree := backedUp options settings env }
        rcases served : startService host options settings
          { env with tree := backedUp options settings env } with ⟨service, env'⟩
        rw [served] at next
        dsimp only at next ⊢
        rw [next]
        cases listed : filesOf options settings (backedUp options settings env) with
        | error e => exact .files target backup listed next
        | ok files =>
          dsimp only
          cases running : startThreads host settings with
          | error e => exact .threads target backup running next
          | ok =>
            have here : work host options settings env =
                documentWith parser service settings.indentWidth files env' := by
              unfold work
              rw [served, found, listed]
            have worked : Worked host options settings env := by
              obtain ⟨named, confined⟩ :=
                documentWith_confined parser service settings.indentWidth files env'
              rw [← here] at named confined
              exact ⟨target, backup, by rw [listed, named], by rw [← next]; exact confined⟩
            dsimp only
            cases summed : Summary.ofOutcomes started (work host options settings env).1 with
            | error fault =>
              rw [documentAndFormat_fault here.symm summed]
              exact .summary worked summed
            | ok summary =>
              rw [documentAndFormat_ok here.symm summed]
              exact .returned worked summed rfl

/-- A run that returned a summary met no fault. -/
theorem attempt_of_run {summary : Summary} {after : Environment}
    (ran : run host options settings started env = (.ok summary, after)) :
    attempt host options settings started env = (.ok (.ok summary), after) := by
  unfold run at ran
  split at ran
  next result left same =>
    rw [same, (Prod.mk.inj ran).1, (Prod.mk.inj ran).2]
  · cases (Prod.mk.inj ran).1

theorem run_of_attempt {result : Except RunError Summary} {after : Environment}
    (ran : attempt host options settings started env = (.ok result, after)) :
    run host options settings started env = (result, after) := by
  rw [run, ran]

/-- What a run has gone through that returns a summary. -/
structure Returned (host : Host π) (options : RunOptions) (settings : Settings)
    (env : Environment) (summary : Summary) (after : Environment) : Prop
    extends Worked host options settings env where
  accounts : summary.Accounts (work host options settings env).1
  formatted : formatAll host (documentedPaths (work host options settings env).1)
    (formattersOf options settings) (work host options settings env).2 =
      (summary.formatting, after)

/-- A run that returns a summary has gone through all stages. -/
theorem run_returned {summary : Summary} {after : Environment}
    (ran : run host options settings started env = (.ok summary, after)) :
    Returned host options settings env summary after := by
  have ends := attempt_ends host options settings started env
  rw [attempt_of_run ran] at ends
  cases ends with
  | returned worked summed formatted =>
    have counted := Summary.ofOutcomes_accounts summed
    exact ⟨worked, ⟨counted.discovered, counted.documented, counted.divided, counted.inserted,
      counted.failed⟩, formatted⟩

end

end Run

end AutoDoc
