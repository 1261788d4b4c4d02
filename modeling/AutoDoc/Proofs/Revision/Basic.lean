import AutoDoc.Proofs.Splice.Shape
import AutoDoc.Revision

/-!
# Splicing given blocks in turn

`SourceText.spliceAll` splices blocks that are given for elements, whatever they hold, and keeps the
steps. A revision is such a run: the toolkit only decides which blocks are given
(`revise_eq_spliceAll`), so what holds of every choice of blocks holds of every revision.
-/

namespace AutoDoc

def SourceText.spliceInto (text : SourceText) (e : Element) (block : List String) :
    Splice.Outcome × SourceText :=
  text.splice e.startLine.toNat e.endLine.toNat block

def SourceText.spliceAll : SourceText → List (Element × List String) → Revision
  | text, [] => ⟨[], text⟩
  | text, (e, block) :: rest =>
    let (outcome, next) := text.spliceInto e block
    let later := next.spliceAll rest
    ⟨⟨e, block, outcome⟩ :: later.steps, later.text⟩

namespace SourceText

@[simp] theorem spliceAll_nil (text : SourceText) : text.spliceAll [] = ⟨[], text⟩ := rfl

theorem spliceAll_cons (text : SourceText) (job : Element × List String)
    (rest : List (Element × List String)) :
    text.spliceAll (job :: rest) =
      ⟨⟨job.1, job.2, (text.spliceInto job.1 job.2).1⟩ ::
          ((text.spliceInto job.1 job.2).2.spliceAll rest).steps,
        ((text.spliceInto job.1 job.2).2.spliceAll rest).text⟩ :=
  rfl

/-- A revision is a run with the blocks that the toolkit led to. -/
theorem revise_eq_spliceAll {σ : Type} (conventions : Conventions) (toolkit : Option (Toolkit σ))
    (text : SourceText) (elements : List Element) (state : σ) :
    ∃ jobs, jobs.map (·.1) = elements ∧
      ((text.revise conventions toolkit elements).run state).1 = text.spliceAll jobs := by
  induction elements generalizing text state with
  | nil => exact ⟨[], rfl, rfl⟩
  | cons e rest ih =>
    let built := (Docstring.block conventions toolkit e).run state
    obtain ⟨jobs, names, run⟩ := ih (text.spliceInto e built.1).2 built.2
    refine ⟨(e, built.1) :: jobs, by simp [names], ?_⟩
    rw [spliceAll_cons, ← run]
    rfl

end SourceText

end AutoDoc
