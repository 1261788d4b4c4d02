import AutoDoc.Element.Extraction
import AutoDoc.Element.Resolution
import AutoDoc.Outline.Parser
import AutoDoc.Revision
import AutoDoc.Settings
import AutoDoc.Tree.Access

/-!
# Documenting a file

A file is read, parsed, revised in memory and parsed again; only a revision that is still valid is
written back. So a file is either documented completely or left as it is. `Document.review` decides
what is to be written, without touching files; `Node.documentFile` reads and writes.
-/

namespace AutoDoc

inductive FailureReason where
  | parseInvalid
  | nothingToDocument
  | validationFailed
  | os (detail : String)
  | parser (detail : String)
  | panicked (detail : String)
deriving DecidableEq, Repr

def FailureReason.message : FailureReason → String
  | .parseInvalid => "source could not be parsed"
  | .nothingToDocument => "nothing to document"
  | .validationFailed => "documented source failed validation"
  | .os detail => "IO error: " ++ detail
  | .parser detail => "parser error: " ++ detail
  | .panicked detail => "worker panicked: " ++ detail

/-- What became of a file: so many blocks were inserted, or it was left alone for a reason. -/
inductive FileStatus where
  | documented (inserted : Nat)
  | failed (reason : FailureReason)
deriving DecidableEq, Repr

structure FileOutcome where
  path : String
  status : FileStatus
deriving DecidableEq, Repr

namespace FileOutcome

def isDocumented (o : FileOutcome) : Bool :=
  match o.status with
  | .documented _ => true
  | .failed _ => false

def failure? (o : FileOutcome) : Option FailureReason :=
  match o.status with
  | .documented _ => none
  | .failed reason => some reason

end FileOutcome

namespace Document

/-- Why the work on a file ended before its end. -/
inductive Stop where
  | failed (reason : FailureReason)
  | fault (f : Fault)
deriving DecidableEq, Repr

/-- The number of parser calls made so far and the state of the toolkit. -/
structure Progress (σ : Type) where
  calls : Nat
  toolkit : σ

/-- Work that keeps count of parser calls and uses a toolkit with state `σ`. -/
abbrev Work (σ α : Type) := ExceptT Stop (StateM (Progress σ)) α

/-- What a file's work ends with: the text to write and the number of blocks inserted. -/
structure Draft where
  text : String
  inserted : Nat
deriving DecidableEq, Repr

def callParser {σ : Type} (parser : Parser) (source : String) : Work σ Outline := do
  let progress ← get
  set { progress with calls := progress.calls + 1 }
  match parser progress.calls source with
  | .error f => throw (.fault f)
  | .ok (.error e) => throw (.failed (.parser e.message))
  | .ok (.ok outline) => return outline

def reviseText {σ : Type} (conventions : Conventions) (toolkit : Option (Toolkit σ))
    (text : SourceText) (elements : List Element) : Work σ Revision := do
  let progress ← get
  let (revision, state) := (text.revise conventions toolkit elements).run progress.toolkit
  set { progress with toolkit := state }
  return revision

/-- The elements of an outline that are to be documented. -/
def elementsOf {σ : Type} (conventions : Conventions) (outline : Outline) :
    Work σ (List Element) :=
  match outline.extract with
  | .error f => throw (.fault f)
  | .ok extraction => return (extraction.elements.resolve conventions).toDocument

def foldedText {σ : Type} (indentWidth : Nat) (revision : Revision) : Work σ String :=
  match revision.text.foldTabs? indentWidth with
  | .error f => throw (.fault f)
  | .ok folded => return folded.toText

/-- Decide what is to be written for a source. The first obstacle in this order ends the work: the
parser fails, the source is invalid or blank, it has no definitions, no block finds a place, tabs
cannot be folded, the parser fails on the revised text, the revised text is invalid. -/
def review {σ : Type} (parser : Parser) (conventions : Conventions)
    (toolkit : Option (Toolkit σ)) (indentWidth : Nat) (source : String) : Work σ Draft := do
  let outline ← callParser parser source
  let text := SourceText.ofText source
  if !outline.valid || text.isBlank then throw (.failed .parseInvalid)
  if outline.hasNoDefinitions then throw (.failed .nothingToDocument)
  let elements ← elementsOf conventions outline
  let revision ← reviseText conventions toolkit text elements
  if revision.inserted == 0 then throw (.failed .nothingToDocument)
  let updated ← foldedText indentWidth revision
  let checked ← callParser parser updated
  if !checked.valid then throw (.failed .validationFailed)
  return ⟨updated, revision.inserted⟩

end Document

open Document in
/-- Document the file at a path. The result is its status, or the fault that ended the work, with
the tree that is left. -/
def Node.documentFile {σ : Type} (top : Node) (parser : Parser) (conventions : Conventions)
    (toolkit : Option (Toolkit σ)) (indentWidth : Nat) (path : String) (progress : Progress σ) :
    Except Fault FileStatus × Node × Progress σ :=
  match top.readText path with
  | .error e => (.ok (.failed (.os e.message)), top, progress)
  | .ok source =>
    match (review parser conventions toolkit indentWidth source).run.run progress with
    | (.error (.fault f), progress) => (.error f, top, progress)
    | (.error (.failed reason), progress) => (.ok (.failed reason), top, progress)
    | (.ok draft, progress) =>
      match top.writeText path draft.text with
      | .error e => (.ok (.failed (.os e.message)), top, progress)
      | .ok written => (.ok (.documented draft.inserted), written, progress)

end AutoDoc
