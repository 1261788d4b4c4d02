import AutoDoc.Outline.Lines

/-!
# Block structure

Code lines form blocks by indentation: a line that ends with a colon is followed by a deeper block,
a block's lines share one indentation, and a definition has to end with a colon. `wellNested`
decides this with a stack of the indentations of the open blocks, innermost first.
-/

namespace AutoDoc.ScannedLine

/-- The open blocks when a line with the given indentation comes next: one more where a block is
expected, else those up to the line's own indentation, which has to be among them. -/
def enter (stack : List Nat) (expected : Bool) (indent : Nat) : Option (List Nat) :=
  let top := stack.head?.getD 0
  if expected then
    if indent ≤ top then none else some (indent :: stack)
  else if top < indent then none
  else
    let stack := stack.dropWhile (indent < ·)
    if stack.head? = some indent then some stack else none

/-- Code lines that continue the open blocks; `expected` says that a new block has to start. -/
def nestedFrom : List Nat → Bool → List ScannedLine → Bool
  | _, expected, [] => !expected
  | stack, expected, l :: rest =>
    match enter stack expected l.indent with
    | none => false
    | some stack =>
      if l.keyword?.isSome && !l.opensBlock then false else nestedFrom stack l.opensBlock rest

/-- The code among scanned lines is a sequence of well nested blocks. -/
def wellNested (lines : List ScannedLine) : Bool := nestedFrom [0] false (lines.filter isCode)

end AutoDoc.ScannedLine
