import AutoDoc.Docstring.Block
import AutoDoc.Splice

/-!
# Revising a source text

A revision takes elements in turn: it builds the block of an element and splices it into the text
that the elements before have left. The steps are kept, with what each splice did.
-/

namespace AutoDoc

/-- One element's block and what became of it. -/
structure RevisionStep where
  element : Element
  block : List String
  outcome : Splice.Outcome
deriving Repr

structure Revision where
  steps : List RevisionStep
  text : SourceText

namespace Revision

def inserted (r : Revision) : Nat := r.steps.countP (·.outcome.modified)

end Revision

/-- Splice the blocks of elements into a text, one after another. -/
def SourceText.revise {σ : Type} (conventions : Conventions) (toolkit : Option (Toolkit σ)) :
    SourceText → List Element → StateM σ Revision
  | text, [] => return ⟨[], text⟩
  | text, e :: rest => do
    let block ← Docstring.block conventions toolkit e
    let (outcome, text) := text.splice e.startLine.toNat e.endLine.toNat block
    let later ← text.revise conventions toolkit rest
    return ⟨⟨e, block, outcome⟩ :: later.steps, later.text⟩

end AutoDoc
