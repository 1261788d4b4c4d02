import AutoDoc.Text.White

/-!
# Paths

A path is kept as it was written, since it is reported that way; `Path.parse` gives its parts.
Repeated slashes count once and a slash at the end is noted, because it asks for a directory.
-/

namespace AutoDoc.Path

inductive Part where
  | current
  | parent
  | name (n : String)
deriving DecidableEq, Repr

structure Parsed where
  absolute : Bool
  parts : List Part
  slashAtEnd : Bool
deriving DecidableEq, Repr

/-- The pieces between slashes, empty ones included. -/
def splitSlash : List Char → List (List Char)
  | [] => [[]]
  | c :: cs =>
    if c = '/' then [] :: splitSlash cs
    else match splitSlash cs with
      | [] => [[c]]
      | piece :: rest => (c :: piece) :: rest

def partOf? (piece : List Char) : Option Part :=
  if piece.isEmpty then none
  else if piece = ['.'] then some .current
  else if piece = ['.', '.'] then some .parent
  else some (.name (String.ofList piece))

def parse (path : String) : Parsed where
  absolute := path.toList.head? == some '/'
  parts := (splitSlash path.toList).filterMap partOf?
  slashAtEnd := path.toList.getLast? == some '/'

def textOf (parts : List Part) : String :=
  String.intercalate "/" (parts.map fun
    | .current => "."
    | .parent => ".."
    | .name n => n)

def trimDots (parts : List Part) : List Part := (parts.reverse.dropWhile (· == .current)).reverse

/-- The path without its last component, for a relative path. Dots at the end go with it, but a dot
that starts the path remains. -/
def parent (path : String) : String :=
  let parts := trimDots (parse path).parts
  let before := trimDots parts.dropLast
  if before.isEmpty && decide (1 < parts.length) then "." else textOf before

/-- A name is longer than the 255 bytes that an entry of a directory may have. -/
def nameTooLong (name : String) : Bool := 255 < name.utf8ByteSize

/-- A path is longer than the 4095 bytes that can be passed on. -/
def tooLong (path : String) : Bool := 4095 < path.utf8ByteSize

/-- A text has the character that ends texts where they are passed on. -/
def hasNul (text : String) : Bool := text.toList.contains '\x00'

/-- The parts that tell paths apart: a dot counts only at the start of a relative path. -/
def components (path : String) : List Part :=
  let p := parse path
  match p.absolute, p.parts with
  | false, .current :: rest => .current :: rest.filter (· != .current)
  | _, parts => parts.filter (· != .current)

/-- The number of components, the root of an absolute path included. -/
def componentCount (path : String) : Nat :=
  (components path).length + (if (parse path).absolute then 1 else 0)

/-- Two paths are the same if their components are, whatever slashes and dots they are written with. -/
def same (path other : String) : Bool :=
  (parse path).absolute == (parse other).absolute && components path == components other

/-- A path behind another; an absolute one stands for itself. -/
def join (base path : String) : String :=
  if path.toList.head? == some '/' || base.isEmpty then path
  else if base.toList.getLast? == some '/' then base ++ path
  else base ++ "/" ++ path

def joinNames (base : String) (names : List String) : String := names.foldl join base

def fileName? (path : String) : Option String :=
  match (components path).getLast? with
  | some (.name n) => some n
  | _ => none

/-- The extension of a name: what stands behind its last dot, unless that dot starts the name. -/
def extensionOf? (name : String) : Option String :=
  let cs := name.toList.reverse
  match cs.dropWhile (· != '.') with
  | [] => none
  | [_] => none
  | _ => some (String.ofList (cs.takeWhile (· != '.')).reverse)

def extension? (path : String) : Option String := (fileName? path).bind extensionOf?

end AutoDoc.Path
