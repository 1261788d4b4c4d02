import AutoDoc.Element.Basic
import AutoDoc.Fault
import AutoDoc.Outline.Basic

/-!
# Extracting elements from an outline

An entry is usable if it has a name that is not blank, both its lines, and does not end before it
starts. Unusable entries are dropped and counted; the rest become elements, with missing optional
parts empty. A range of all 2^32 lines has a length beyond 32 bits and faults.
-/

namespace AutoDoc

/-- The list of an outline that an entry stands in. -/
inductive EntryKind where
  | classDef
  | function
  | exception
deriving DecidableEq, Repr

def EntryKind.text : EntryKind → String
  | .classDef => "class"
  | .function => "function"
  | .exception => "exception"

/-- Why an entry is unusable. -/
inductive Rejection where
  | missingField (kind : EntryKind) (index : Nat) (field : String)
  | invertedRange (kind : EntryKind) (name : String) (startLine endLine : UInt32)
deriving DecidableEq, Repr

def Rejection.message : Rejection → String
  | .missingField kind index field =>
    kind.text ++ " record #" ++ toString index ++ " is missing required field '" ++ field ++ "'"
  | .invertedRange kind name startLine endLine =>
    kind.text ++ " record '" ++ name ++ "' has inverted range " ++ toString startLine.toNat ++
      ".." ++ toString endLine.toNat

namespace Extraction

def nonBlank? (s : Option String) : Option String :=
  (s.map Text.trim).filter fun t => !t.isEmpty

/-- The name and the lines of a usable entry. The name is examined first, then the lines in
turn. -/
def range (kind : EntryKind) (index : Nat) (name : Option String)
    (startLine endLine : Option UInt32) : Except Rejection (String × UInt32 × UInt32) :=
  match nonBlank? name, startLine, endLine with
  | none, _, _ => .error (.missingField kind index "name")
  | some _, none, _ => .error (.missingField kind index "start_line")
  | some _, some _, none => .error (.missingField kind index "end_line")
  | some name, some startLine, some endLine =>
    if endLine < startLine then .error (.invertedRange kind name startLine endLine)
    else .ok (name, startLine, endLine)

/-- The number of lines of a range that is not inverted, unless it exceeds 32 bits. -/
def lineCount (startLine endLine : UInt32) : Except Fault UInt32 :=
  if endLine - startLine = 4294967295 then .error .addOverflow else .ok (endLine - startLine + 1)

/-- The number of lines of a text, not counting an empty one behind a final newline. -/
def textLines : List Char → Nat
  | [] => 0
  | [_] => 1
  | c :: d :: cs => if c = '\n' then textLines (d :: cs) + 1 else textLines (d :: cs)

/-- The lines that remain without those of the documentation, at least zero. -/
def codeLines (totalLines : UInt32) (documentation : String) : UInt32 :=
  if Text.isBlank documentation then totalLines
  else
    let documented := UInt32.ofNat (textLines documentation.toList)
    if totalLines < documented then 0 else totalLines - documented

def variableNames (vs : Option (List Outline.Variable)) : List String :=
  (vs.getD []).filterMap fun v => nonBlank? v.name

/-- A parameter with a name that is not blank; a hint is trimmed and a default kept as it is. -/
def parameter? (p : Outline.Parameter) : Option Parameter :=
  (nonBlank? p.name).map fun name =>
    { name, typeHint := nonBlank? p.typeHint, default := p.default }

def ofClass (index : Nat) (c : Outline.Class) : Except Fault (Except Rejection Element) :=
  match range .classDef index c.name c.startLine c.endLine with
  | .error r => .ok (.error r)
  | .ok (name, startLine, endLine) => do
    let totalLines ← lineCount startLine endLine
    let documentation := c.documentation.getD ""
    return .ok {
      name, startLine, endLine, documentation, totalLines
      kind := .classDef
      context := c.context.getD []
      inheritance := (c.inheritance.getD []).filter fun base => !Text.isBlank base
      classVariables := variableNames c.classVariables
      instanceVariables := variableNames c.instanceVariables
      linesOfCode := codeLines totalLines documentation }

/-- The element of a function entry; it is a method if an owner is named. -/
def ofFunction (index : Nat) (f : Outline.Function) : Except Fault (Except Rejection Element) :=
  match range .function index f.name f.startLine f.endLine with
  | .error r => .ok (.error r)
  | .ok (name, startLine, endLine) => do
    let totalLines ← lineCount startLine endLine
    let documentation := f.documentation.getD ""
    let owner := Text.trim (f.owner.getD "")
    let parameters := (f.parameters.getD []).filterMap parameter?
    return .ok {
      name, startLine, endLine, documentation, totalLines, owner, parameters
      kind := if owner.isEmpty then .function else .method
      context := f.context.getD []
      returns := nonBlank? f.returns
      linesOfCode := codeLines totalLines documentation
      parameterCount := parameters.length
      annotatedCount := parameters.countP Parameter.isAnnotated }

/-- The use of an exception of an exception entry. -/
def ofException (index : Nat) (e : Outline.Exception) : Except Rejection ExceptionUse :=
  (range .exception index e.name e.startLine e.endLine).map fun (name, startLine, endLine) =>
    { name, startLine, endLine, localName := nonBlank? e.localName }

/-- Extract every entry of a list, passing on its index; the first fault ends it. -/
def each {α β : Type} (f : Nat → α → Except Fault (Except Rejection β)) :
    Nat → List α → Except Fault (List (Except Rejection β))
  | _, [] => .ok []
  | index, a :: rest => do
    let b ← f index a
    let bs ← each f (index + 1) rest
    return b :: bs

def kept {β : Type} (results : List (Except Rejection β)) : List β :=
  results.filterMap fun
    | .ok b => some b
    | .error _ => none

end Extraction

/-- The results of extraction, entry by entry. -/
structure Extraction where
  classes : List (Except Rejection Element) := []
  functions : List (Except Rejection Element) := []
  exceptions : List (Except Rejection ExceptionUse) := []

namespace Extraction

def elements (x : Extraction) : Elements where
  classes := kept x.classes
  functions := kept x.functions
  exceptions := kept x.exceptions

def dropped (x : Extraction) : Nat :=
  (x.classes.length - (kept x.classes).length) + (x.functions.length - (kept x.functions).length)
    + (x.exceptions.length - (kept x.exceptions).length)

end Extraction

def Outline.extract (o : Outline) : Except Fault Extraction := do
  let classes ← Extraction.each Extraction.ofClass 0 o.classes
  let functions ← Extraction.each Extraction.ofFunction 0 o.functions
  let exceptions ← Extraction.each (fun i e => .ok (Extraction.ofException i e)) 0 o.exceptions
  return { classes, functions, exceptions }

end AutoDoc
