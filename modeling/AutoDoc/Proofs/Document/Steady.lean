import AutoDoc.Proofs.Document.Stages
import AutoDoc.Proofs.Toolkit.Simulation
import AutoDoc.Toolkit.Table

/-!
# Work that keeps no memory

A steady toolkit answers by the arguments of a request alone, a steady parser by the source alone.
Then the work on a source comes to the same whatever was worked on before (`Job.run_steady`), since
each stage of its course finds what it would have found at any other time.
-/

namespace AutoDoc

/-- The result does not depend on the state. -/
def Steady {σ α : Type} (x : StateM σ α) : Prop := ∀ s t, (x.run s).1 = (x.run t).1

namespace Steady

variable {σ α β : Type}

theorem pure (a : α) : Steady (Pure.pure a : StateM σ α) := fun _ _ => rfl

theorem bind {x : StateM σ α} {f : α → StateM σ β} (first : Steady x) (next : ∀ a, Steady (f a)) :
    Steady (x >>= f) := by
  intro s t
  change ((f (x.run s).1).run (x.run s).2).1 = ((f (x.run t).1).run (x.run t).2).1
  rw [first s t]
  exact next _ _ _

end Steady

/-- A toolkit that answers by the arguments of a request alone. -/
structure Toolkit.Steady {σ : Type} (t : Toolkit σ) : Prop where
  segment : ∀ identifier, AutoDoc.Steady (t.segment identifier).run
  spellCorrect : ∀ words, AutoDoc.Steady (t.spellCorrect words).run
  tag : ∀ phrase, AutoDoc.Steady (t.tag phrase).run
  stem : ∀ words, AutoDoc.Steady (t.stem words).run

/-- A parser that replies by the source alone. -/
def Parser.Steady (parser : Parser) : Prop := ∀ m n source, parser m source = parser n source

theorem TableToolkit.steady {σ : Type} (t : TableToolkit) : (t.toolkit : Toolkit σ).Steady :=
  ⟨fun _ => .pure _, fun _ => .pure _, fun _ => .pure _, fun _ => .pure _⟩

/-! ### Revisions -/

/-- A steady toolkit answers alike in any two states. -/
theorem Toolkit.Steady.simulates {σ : Type} {t : Toolkit σ} (steady : t.Steady) :
    t.Simulates (fun _ _ _ => True) t := by
  have same {α : Type} {x : Toolkit.Request σ α} (x_steady : AutoDoc.Steady x.run) :
      AutoDoc.Simulates (fun _ _ _ => True) 1 SameAnswer x.run x.run := fun _ s t _ =>
    ⟨fun v => by rw [x_steady s t], trivial⟩
  exact ⟨fun i => same (steady.segment i), fun ws => same (steady.spellCorrect ws),
    fun p => same (steady.tag p), fun ws => same (steady.stem ws), fun _ => Iff.rfl⟩

theorem Docstring.block_steady {σ : Type} {toolkit : Option (Toolkit σ)}
    (steady : ∀ t ∈ toolkit, t.Steady) (conventions : Conventions) (e : Element) :
    Steady (block conventions toolkit e) := by
  have alike : Option.Rel (Toolkit.Simulates fun _ _ _ => True) toolkit toolkit := by
    cases toolkit with
    | none => exact .none
    | some t => exact .some (steady t rfl).simulates
  exact fun s t => (block_simulates (fun _ _ _ _ => trivial) alike conventions e 0 s t trivial).1

/-- With a steady toolkit a revision depends on the text and the elements only. -/
theorem SourceText.revise_steady {σ : Type} {toolkit : Option (Toolkit σ)}
    (steady : ∀ t ∈ toolkit, t.Steady) (conventions : Conventions) (elements : List Element)
    (text : SourceText) : Steady (text.revise conventions toolkit elements) := by
  induction elements generalizing text with
  | nil => exact .pure _
  | cons e rest ih =>
    exact (Docstring.block_steady steady conventions e).bind fun _ =>
      (ih _).bind fun _ => .pure _

/-! ### Jobs -/

namespace Document.Job

variable {σ : Type} {job : Job σ}

def later (job : Job σ) (progress : Progress σ) : Job σ := { job with progress }

variable {q : Progress σ} (constant : job.parser.Steady) (steady : ∀ t ∈ job.toolkit, t.Steady)
include constant

theorem firstReply_later : (job.later q).firstReply = job.firstReply := constant _ _ _

theorem Parsed.later {outline : Outline} (parsed : job.Parsed outline) :
    (job.later q).Parsed outline :=
  ⟨by rw [firstReply_later constant, parsed.reply], parsed.valid, parsed.written,
    parsed.definitions⟩

include steady

omit constant in
theorem revision_later (extraction : Extraction) :
    (job.later q).revision extraction = job.revision extraction :=
  SourceText.revise_steady steady _ _ _ _ _

theorem secondReply_later (extraction : Extraction) :
    (job.later q).secondReply extraction = job.secondReply extraction := by
  unfold secondReply updated
  rw [revision_later steady]
  exact constant _ _ _

theorem Revised.later {outline : Outline} {extraction : Extraction}
    (revised : job.Revised outline extraction) : (job.later q).Revised outline extraction :=
  ⟨revised.toParsed.later constant, revised.extracted,
    by rw [revision_later steady]; exact revised.inserted, revised.fits⟩

/-- Work that is begun at another time takes the same course. -/
theorem Course.later {result : Except Stop Draft} (course : job.Course result) :
    (job.later q).Course result := by
  have first : (job.later q).firstReply = job.firstReply := firstReply_later constant
  have revision := revision_later (q := q) steady
  have second := secondReply_later (q := q) constant steady
  cases course with
  | parserFault reply => exact .parserFault (first.trans reply)
  | parserFailed reply => exact .parserFailed (first.trans reply)
  | invalid reply bad => exact .invalid (first.trans reply) bad
  | noDefinitions reply valid written empty =>
    exact .noDefinitions (first.trans reply) valid written empty
  | extractionFault parsed failed => exact .extractionFault (parsed.later constant) failed
  | noPlace parsed extracted none =>
    exact .noPlace (parsed.later constant) extracted (by rw [revision, none])
  | tooWide parsed extracted some wide =>
    exact .tooWide (parsed.later constant) extracted (by rw [revision]; exact some) wide
  | recheckFault revised again =>
    exact .recheckFault (revised.later constant steady) ((second _).trans again)
  | recheckFailed revised again =>
    exact .recheckFailed (revised.later constant steady) ((second _).trans again)
  | rejected revised again invalid =>
    exact .rejected (revised.later constant steady) ((second _).trans again) invalid
  | @accepted outline checked extraction revised again valid =>
    have accepted := Course.accepted (revised.later (q := q) constant steady)
      ((second _).trans again) valid
    unfold updated at accepted ⊢
    rwa [revision] at accepted

variable (job) in
/-- What the work on a source comes to does not depend on when it is begun. -/
theorem run_steady (q : Progress σ) : (job.later q).run.1 = job.run.1 :=
  course_iff.mp (Course.later constant steady (course_iff.mpr rfl))

end Document.Job

end AutoDoc
