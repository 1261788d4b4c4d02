import AutoDoc.Proofs.Document.Stages
import AutoDoc.Proofs.Tree.Growth
import AutoDoc.Run.Basic

/-!
# Which files a run touches

Documenting files one after another changes files only at the paths that are reported as documented
(`documentAll_confined`); a file that fails, be it by a fault, is left alone. Formatters are started
on these paths and no others (`formatAll_formats`), so if they keep to what they are given, the run
as a whole does (`formatAll_confined`).
-/

namespace AutoDoc

/-- A tree has changed at most in the bytes of the files that paths lead to. -/
structure Node.ConfinedTo (paths : List String) (before after : Node) : Prop where
  kinds : ∀ names, after.kindAt names = before.kindAt names
  contents : ∀ names, (∀ path ∈ paths, before.locate true path ≠ .ok names) →
    after.contentAt names = before.contentAt names

namespace Node.ConfinedTo

theorem refl (paths : List String) (top : Node) : ConfinedTo paths top top :=
  ⟨fun _ => rfl, fun _ _ => rfl⟩

theorem mono {paths more : List String} {before after : Node}
    (confined : ConfinedTo paths before after) (sub : paths ⊆ more) :
    ConfinedTo more before after :=
  ⟨confined.kinds, fun names other =>
    confined.contents names fun path member => other path (sub member)⟩

/-- Paths lead where they led before. -/
theorem locate_eq {paths : List String} {before after : Node}
    (confined : ConfinedTo paths before after) (followLast : Bool) (path : String) :
    after.locate followLast path = before.locate followLast path :=
  locate_congr confined.kinds followLast path

theorem trans {paths : List String} {a b c : Node} (first : ConfinedTo paths a b)
    (second : ConfinedTo paths b c) : ConfinedTo paths a c := by
  refine ⟨fun names => (second.kinds names).trans (first.kinds names), fun names other => ?_⟩
  rw [second.contents names, first.contents names other]
  intro path member
  rw [first.locate_eq]
  exact other path member

end Node.ConfinedTo

def FileOutcome.documentedPaths (outcomes : List FileOutcome) : List String :=
  (outcomes.filter (·.isDocumented)).map (·.path)

open Node FileOutcome

/-! ### Documenting -/

namespace Run

section

variable {σ : Type} (parser : Parser) (toolkit : Option (Toolkit σ)) (indentWidth : Nat)

/-- The outcome of a file names it, and only a documented file has changed. -/
theorem documentGuarded_confined (path : String) (tree : Node) (progress : Document.Progress σ) :
    let result := documentGuarded parser toolkit indentWidth path tree progress
    result.1.path = path ∧ ConfinedTo (documentedPaths [result.1]) tree result.2.1 := by
  unfold documentGuarded
  rcases tree.documentFile_cases parser {} toolkit indentWidth path progress with
    ⟨e, _, result⟩ | ⟨source, place, _, located, held, result⟩
  · rw [result]
    exact ⟨rfl, ConfinedTo.refl _ _⟩
  · dsimp only at result
    rcases ran : (Document.Job.run ⟨parser, {}, toolkit, indentWidth, source, progress⟩).1 with
      (fault | reason) | draft
    · rw [result, ran]
      exact ⟨rfl, ConfinedTo.refl _ _⟩
    · rw [result, ran]
      exact ⟨rfl, ConfinedTo.refl _ _⟩
    · rw [result, ran]
      have frame := SameBut.put held draft.text.toUTF8
      refine ⟨rfl, frame.kinds, fun names other => frame.contents names ?_⟩
      rintro rfl
      exact other path List.mem_cons_self located

theorem documentedPaths_cons (outcome : FileOutcome) (rest : List FileOutcome) :
    documentedPaths (outcome :: rest) = documentedPaths [outcome] ++ documentedPaths rest := by
  unfold documentedPaths
  cases documented : outcome.isDocumented <;> simp [documented]

/-- Outcomes come in the order of the files, and only documented files have changed. -/
theorem documentAll_confined (paths : List String) (tree : Node)
    (progress : Document.Progress σ) :
    let result := documentAll parser toolkit indentWidth paths tree progress
    result.1.map (·.path) = paths ∧ ConfinedTo (documentedPaths result.1) tree result.2.1 := by
  induction paths generalizing tree progress with
  | nil => exact ⟨rfl, ConfinedTo.refl _ _⟩
  | cons path rest ih =>
    have first := documentGuarded_confined parser toolkit indentWidth path tree progress
    unfold documentAll
    rcases guarded : documentGuarded parser toolkit indentWidth path tree progress with
      ⟨outcome, next, counted⟩
    rw [guarded] at first
    obtain ⟨named, here⟩ := first
    obtain ⟨others, later⟩ := ih next counted
    dsimp only at named here ⊢
    rw [documentedPaths_cons]
    exact ⟨by rw [List.map_cons, named, others],
      (here.mono (List.subset_append_left _ _)).trans (later.mono (List.subset_append_right _ _))⟩

end

/-- With or without a service the files are documented one after another. -/
theorem documentWith_confined {π : Type} (parser : Parser) (service : Option (HostedService π))
    (indentWidth : Nat) (files : List String) (env : Environment) :
    let result := documentWith parser service indentWidth files env
    result.1.map (·.path) = files ∧
      ConfinedTo (documentedPaths result.1) env.tree result.2.tree := by
  cases service with
  | none => exact documentAll_confined parser (none : Option (Toolkit Unit)) indentWidth files _ _
  | some service =>
    rcases service with ⟨program, service⟩
    exact documentAll_confined parser (some (Worker.Service.toolkit program service.verbs))
      indentWidth files env.tree ⟨0, service⟩

end Run

/-! ### Formatting -/

/-- A formatter can be started on paths: its program is found and takes the arguments. -/
def Formatter.startable {π : Type} (host : Host π) (top : Node) (f : Formatter)
    (paths : List String) : Bool :=
  match f.command with
  | [] => false
  | program :: args =>
    (host.locate? top program).any fun located => (located.launch host (args ++ paths)).isOk

/-- Formatters run one after another on paths. Each that can be started is started once, with the
paths behind its own arguments. -/
inductive Formats {π : Type} (host : Host π) (paths : List String) :
    List Formatter → Environment → List FormatReport → Environment → Prop
  | done (env : Environment) : Formats host paths [] env [] env
  | skipped {f : Formatter} {rest : List Formatter} {env after : Environment}
      {reports : List FormatReport} (unstarted : f.startable host env.tree paths = false)
      (later : Formats host paths rest env reports after) :
      Formats host paths (f :: rest) env reports after
  | started {f : Formatter} {rest : List Formatter} {env after : Environment}
      {reports : List FormatReport} {program : String} {args : List String}
      (command : f.command = program :: args)
      (startable : f.startable host env.tree paths = true)
      (later : Formats host paths rest (host.run program (args ++ paths) env).2 reports after) :
      Formats host paths (f :: rest) env
        (Formatter.report f.name (host.run program (args ++ paths) env).1 :: reports) after

/-- A formatter keeps to the paths behind its own arguments: it changes the bytes of the files that
they lead to and nothing else. -/
def Formatter.Confined {π : Type} (host : Host π) (f : Formatter) : Prop :=
  ∀ program args, f.command = program :: args → ∀ paths env,
    ConfinedTo paths env.tree (host.run program (args ++ paths) env).2.tree

section

variable {π : Type} {host : Host π} {paths : List String}

/-- A program starts under the name by which it was found. -/
theorem launch_eq {args : List String} {top : Node} {program started : String} {located : Located}
    (found : host.locate? top program = some located)
    (launched : located.launch host args = .ok started) : started = program := by
  have spelled : located = .byName program ∨ located = .byPath program := by
    unfold Host.locate? at found
    split at found
    · split at found
      · exact Or.inr (Option.some.inj found).symm
      · cases found
    · split at found
      · exact Or.inl (Option.some.inj found).symm
      · cases found
  unfold Located.launch at launched
  split at launched
  · cases launched
  · rcases spelled with rfl | rfl
    · exact (Except.ok.inj launched).symm
    · dsimp only at launched
      split at launched
      · exact (Except.ok.inj launched).symm
      · cases launched

/-- A formatter that can be started runs, and one that cannot is passed over. -/
theorem runBestEffort_cases (given : paths ≠ []) (f : Formatter) (env : Environment) :
    f.startable host env.tree paths = false ∧ f.runBestEffort host paths env = (none, env) ∨
    ∃ program args, f.command = program :: args ∧ f.startable host env.tree paths = true ∧
      f.runBestEffort host paths env =
        (some (Formatter.report f.name (host.run program (args ++ paths) env).1),
          (host.run program (args ++ paths) env).2) := by
  have some : paths.isEmpty = false := by simpa using given
  unfold Formatter.runBestEffort Formatter.startable Formatter.run
  rw [some, if_neg Bool.false_ne_true]
  cases command : f.command with
  | nil => exact Or.inl ⟨rfl, rfl⟩
  | cons program args =>
    dsimp only
    cases found : host.locate? env.tree program with
    | none => exact Or.inl ⟨rfl, rfl⟩
    | some located =>
      dsimp only [Option.any_some]
      cases launched : located.launch host (args ++ paths) with
      | error e => exact Or.inl ⟨rfl, rfl⟩
      | ok started =>
        obtain rfl := launch_eq found launched
        exact Or.inr ⟨started, args, rfl, rfl, rfl⟩

/-- The formatters of a run are started on the paths they are given. -/
theorem formatAll_formats (given : paths ≠ []) (formatters : List Formatter) (env : Environment) :
    Formats host paths formatters env (Run.formatAll host paths formatters env).1
      (Run.formatAll host paths formatters env).2 := by
  induction formatters generalizing env with
  | nil => exact .done env
  | cons f rest ih =>
    unfold Run.formatAll
    rcases runBestEffort_cases given f env with
      ⟨unstarted, passed⟩ | ⟨program, args, command, startable, ran⟩
    · rw [passed]
      exact .skipped unstarted (ih env)
    · rw [ran]
      exact .started command startable (ih _)

/-- Without paths no formatter is started. -/
theorem formatAll_nil (formatters : List Formatter) (env : Environment) :
    Run.formatAll host [] formatters env = ([], env) := by
  induction formatters with
  | nil => rfl
  | cons f rest ih =>
    unfold Run.formatAll Formatter.runBestEffort
    rw [List.isEmpty_nil, if_pos rfl]
    dsimp only
    rw [ih]
    rfl

/-- What each formatter keeps to, all of them one after another keep to. -/
theorem Formats.confined {formatters : List Formatter} {env after : Environment}
    {reports : List FormatReport} (formats : Formats host paths formatters env reports after)
    (confined : ∀ f ∈ formatters, f.Confined host) : ConfinedTo paths env.tree after.tree := by
  induction formats with
  | done env => exact ConfinedTo.refl _ _
  | skipped _ _ ih => exact ih fun f member => confined f (List.mem_cons_of_mem _ member)
  | started command _ _ ih =>
    exact (confined _ List.mem_cons_self _ _ command paths _).trans
      (ih fun f member => confined f (List.mem_cons_of_mem _ member))

/-- Formatters that keep to their paths change no other file. -/
theorem formatAll_confined {formatters : List Formatter}
    (confined : ∀ f ∈ formatters, f.Confined host) (env : Environment) :
    ConfinedTo paths env.tree (Run.formatAll host paths formatters env).2.tree := by
  by_cases empty : paths = []
  · subst empty
    rw [formatAll_nil]
    exact ConfinedTo.refl _ _
  · exact (formatAll_formats empty formatters env).confined confined

end

end AutoDoc
