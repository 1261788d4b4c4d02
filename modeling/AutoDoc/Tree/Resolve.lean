import AutoDoc.Tree.Error
import AutoDoc.Tree.Node
import AutoDoc.Tree.Path

/-!
# Finding paths in a tree

Paths are relative to the top of a tree; nothing is known outside it, so an absolute path and a
step above the top lead nowhere. Symbolic links on the way are followed, at most forty of them, and
a link at the end only if asked for. A path that is too long is refused as a whole, a name that is
too long where it is looked up.
-/

namespace AutoDoc.Node

open AutoDoc.Path (Part)

/-- The parts of a relative path that can be passed on. -/
def openPath (path : String) : Except OsError Path.Parsed :=
  let p := Path.parse path
  if Path.hasNul path then .error .nulInPath
  else if Path.tooLong path then .error .nameTooLong
  else if path.isEmpty || p.absolute then .error .notFound
  else .ok p

/-- The parts of a link's target. A slash at its end asks for a directory, as a dot does. -/
def targetParts (target : Path.Parsed) : List Part :=
  target.parts ++ (if target.slashAtEnd then [.current] else [])

/-- Step through parts from the directory at `place`. The last name need not exist. A link that is
to be followed is handed to `onLink`, with the directory it stands in and the parts to go on with:
those of its target and those behind it. -/
def walk (top : Node) (followLast : Bool)
    (onLink : List String → List Part → Except OsError (List String)) :
    List String → List Part → Except OsError (List String)
  | place, [] => .ok place
  | place, part :: rest =>
    match top.get? place with
    | some (.dir entries) =>
      match part with
      | .current => walk top followLast onLink place rest
      | .parent =>
        if place.isEmpty then .error .notFound else walk top followLast onLink place.dropLast rest
      | .name n =>
        if Path.nameTooLong n then .error .nameTooLong
        else match entries.lookup n with
        | none => if rest.isEmpty then .ok (place ++ [n]) else .error .notFound
        | some (.link target) =>
          if rest.isEmpty && !followLast then .ok (place ++ [n])
          else if (Path.parse target).absolute then .error .notFound
          else onLink place (targetParts (Path.parse target) ++ rest)
        | some _ => walk top followLast onLink (place ++ [n]) rest
    | some _ => .error .notADirectory
    | none => .error .notFound

/-- Step through parts with at most `links` symbolic links on the way. -/
def walkWithin (top : Node) (followLast : Bool) :
    Nat → List String → List Part → Except OsError (List String)
  | 0 => fun _ _ => .error .tooManyLinks
  | links + 1 => walk top followLast (walkWithin top followLast links)

/-- The place that a path leads to, by names from the top; its last name need not exist. -/
def locate (top : Node) (followLast : Bool) (path : String) : Except OsError (List String) := do
  let p ← openPath path
  let place ← walkWithin top (followLast || p.slashAtEnd) 41 [] p.parts
  match p.slashAtEnd, top.get? place with
  | true, some (.dir _) => return place
  | true, some _ => .error .notADirectory
  | _, _ => return place

/-- The node that a path leads to, with the place it stands in, links followed. -/
def find (top : Node) (path : String) : Except OsError (List String × Node) := do
  let place ← top.locate true path
  match top.get? place with
  | some node => return (place, node)
  | none => .error .notFound

def pathExists (top : Node) (path : String) : Bool :=
  match top.find path with
  | .ok _ => true
  | .error _ => false

def pathIsDir (top : Node) (path : String) : Bool :=
  match top.find path with
  | .ok (_, node) => node.isDir
  | .error _ => false

def pathIsLink (top : Node) (path : String) : Bool :=
  match top.locate false path with
  | .ok place => (top.get? place).any isLink
  | .error _ => false

def pathIsFile (top : Node) (path : String) : Bool :=
  match top.find path with
  | .ok (_, node) => node.isFile
  | .error _ => false

end AutoDoc.Node
