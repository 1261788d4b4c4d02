import AutoDoc.Backup
import AutoDoc.Discovery
import AutoDoc.Host.Interpreter
import AutoDoc.Host.Toolkit
import AutoDoc.Run.Error
import AutoDoc.Run.Summary

/-!
# Runs

A run checks its target, makes a backup, finds the interpreter and, if asked, starts the toolkit,
documents every file and hands those that were documented to the formatters. Trouble with one file
is recorded in its outcome and never stops the run.

Paths are relative to the top of the tree: there is no other working directory, and a path that is
absolute or steps above the top leads nowhere.
-/

namespace AutoDoc

/-- What a run documents: all files below the root, or one file. -/
inductive Target where
  | repository
  | file (path : String)
deriving DecidableEq, Repr

structure RunOptions where
  root : String := "."
  target : Target := .repository
  backup : Bool := true
  format : Bool := true
  sortImports : Bool := true
  nlp : Bool := false
deriving DecidableEq, Repr

namespace Run

def extension : String := "py"

/-- The target can be documented: a directory as root, and for a single file an existing one with
the right extension. -/
def checkTarget (options : RunOptions) (tree : Node) : Except RunError Unit :=
  if !tree.pathIsDir options.root then .error (.fileNotFound options.root)
  else
    match options.target with
    | .repository => .ok ()
    | .file path =>
      if Path.extension? path != some extension then .error (.unsupportedFileType path)
      else if !tree.pathIsFile path then .error (.fileNotFound path)
      else .ok ()

def makeBackup (options : RunOptions) (settings : Settings) (tree : Node) :
    Except RunError Unit × Node :=
  if options.backup then
    match tree.backup options.root settings.backupFolder with
    | (tree, .ok _) => (.ok (), tree)
    | (tree, .error e) =>
      (.error (.apply ("backup failed: " ++ e.message)
        (some (Path.join options.root settings.backupFolder))), tree)
  else (.ok (), tree)

def parserOf {π : Type} (host : Host π) (settings : Settings) (tree : Node) :
    Except RunError Parser :=
  match host.parser tree settings.python with
  | .ok parser => .ok parser
  | .error e =>
    .error (.configuration
      ("python interpreter '" ++ settings.python ++ "' is unusable: " ++ e.message))

/-- Start the toolkit if it is wanted; without it the run goes on all the same. -/
def startService {π : Type} (host : Host π) (options : RunOptions) (settings : Settings)
    (env : Environment) : Option (HostedService π) × Environment :=
  if options.nlp then
    let (service, starts) :=
      host.startToolkit env.tree settings.python settings.nlpModule env.starts
    (service.toOption, { env with starts })
  else (none, env)

def filesOf (options : RunOptions) (settings : Settings) (tree : Node) :
    Except RunError (List String) :=
  match options.target with
  | .file path => .ok [path]
  | .repository =>
    match tree.discover options.root extension settings with
    | .ok files => .ok files
    | .error e => .error (.ofDiscovery e)

/-- Start the threads on which files are documented; there is at least one. -/
def startThreads {π : Type} (host : Host π) (settings : Settings) : Except RunError Unit :=
  match host.threads (max settings.workers 1) with
  | none => .ok ()
  | some reason => .error (.internal ("failed to start worker pool: " ++ reason))

/-- Document one file; a fault becomes an outcome. -/
def documentGuarded {σ : Type} (parser : Parser) (toolkit : Option (Toolkit σ))
    (indentWidth : Nat) (path : String) (tree : Node) (progress : Document.Progress σ) :
    FileOutcome × Node × Document.Progress σ :=
  match tree.documentFile parser {} toolkit indentWidth path progress with
  | (.ok status, tree, progress) => (⟨path, status⟩, tree, progress)
  | (.error fault, tree, progress) =>
    (⟨path, .failed (.panicked fault.message)⟩, tree, progress)

/-- Document files one after another. This stands for a pool of threads that share the files among
them: files that are not the same can be taken in any order (`order_does_not_matter`). -/
def documentAll {σ : Type} (parser : Parser) (toolkit : Option (Toolkit σ)) (indentWidth : Nat) :
    List String → Node → Document.Progress σ → List FileOutcome × Node × Document.Progress σ
  | [], tree, progress => ([], tree, progress)
  | path :: rest, tree, progress =>
    let (outcome, tree, progress) :=
      documentGuarded parser toolkit indentWidth path tree progress
    let (outcomes, tree, progress) :=
      documentAll parser toolkit indentWidth rest tree progress
    (outcome :: outcomes, tree, progress)

/-- Document files with the toolkit of a service, if there is one, and shut it down. -/
def documentWith {π : Type} (parser : Parser)
    (service : Option (HostedService π)) (indentWidth : Nat)
    (files : List String) (env : Environment) : List FileOutcome × Environment :=
  match service with
  | none =>
    let (outcomes, tree, _) :=
      documentAll parser (none : Option (Toolkit Unit)) indentWidth files env.tree ⟨0, ()⟩
    (outcomes, { env with tree })
  | some (program, service) =>
    let toolkit := Worker.Service.toolkit program service.verbs
    let (outcomes, tree, progress) :=
      documentAll parser (some toolkit) indentWidth files env.tree ⟨0, service⟩
    (outcomes, { tree, starts := (progress.toolkit.shutdown program).session.starts })

def formattersOf (options : RunOptions) (settings : Settings) : List Formatter :=
  (if options.format then [⟨"black", settings.formatter⟩] else []) ++
    (if options.sortImports then [⟨"isort", settings.importSorter⟩] else [])

/-- Run formatters on paths, one after another. -/
def formatAll {π : Type} (host : Host π) (paths : List String) :
    List Formatter → Environment → List FormatReport × Environment
  | [], env => ([], env)
  | f :: rest, env =>
    let (report, env) := f.runBestEffort host paths env
    let (reports, env) := formatAll host paths rest env
    (report.toList ++ reports, env)

/-- Document the files of a run, sum up and format. A fault while summing up comes before any
formatter is started. -/
def documentAndFormat {π : Type} (host : Host π) (options : RunOptions) (settings : Settings)
    (started : Calendar.Instant) (parser : Parser) (service : Option (HostedService π))
    (files : List String) (env : Environment) : Except Fault Summary × Environment :=
  let (outcomes, env) := documentWith parser service settings.indentWidth files env
  match Summary.ofOutcomes started outcomes with
  | .error fault => (.error fault, env)
  | .ok summary =>
    let documented := (outcomes.filter (·.isDocumented)).map (·.path)
    let (formatting, env) := formatAll host documented (formattersOf options settings) env
    (.ok { summary with formatting }, env)

/-- Perform a run: it returns a summary, stops with an error, or is ended by a fault. -/
def attempt {π : Type} (host : Host π) (options : RunOptions) (settings : Settings)
    (started : Calendar.Instant) (env : Environment) :
    Except Fault (Except RunError Summary) × Environment :=
  match checkTarget options env.tree with
  | .error e => (.ok (.error e), env)
  | .ok () =>
    match makeBackup options settings env.tree with
    | (.error e, tree) => (.ok (.error e), { env with tree })
    | (.ok (), tree) =>
      let env := { env with tree }
      match parserOf host settings env.tree with
      | .error e => (.ok (.error e), env)
      | .ok parser =>
        let (service, env) := startService host options settings env
        match filesOf options settings env.tree with
        | .error e => (.ok (.error e), env)
        | .ok files =>
          match startThreads host settings with
          | .error e => (.ok (.error e), env)
          | .ok () =>
            match documentAndFormat host options settings started parser service files env with
            | (.ok summary, env) => (.ok (.ok summary), env)
            | (.error fault, env) => (.error fault, env)

end Run

/-- Perform a run for a caller that catches faults and takes them for errors of their own kind. -/
def run {π : Type} (host : Host π) (options : RunOptions) (settings : Settings)
    (started : Calendar.Instant) (env : Environment) : Except RunError Summary × Environment :=
  match Run.attempt host options settings started env with
  | (.ok result, env) => (result, env)
  | (.error fault, env) => (.error (.internal fault.message), env)

end AutoDoc
