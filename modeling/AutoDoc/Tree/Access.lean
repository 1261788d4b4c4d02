import AutoDoc.Tree.Resolve

/-!
# Reading and writing in a tree

Files are read and written whole. An operation that fails part of the way returns the tree as it
left it.
-/

namespace AutoDoc.Node

def readBytes (top : Node) (path : String) : Except OsError ByteArray := do
  match ← top.find path with
  | (_, .file content) => return content
  | _ => .error .isADirectory

def readText (top : Node) (path : String) : Except OsError String := do
  match String.fromUTF8? (← top.readBytes path) with
  | some text => return text
  | none => .error .notText

/-- Write a file. An existing one is replaced; a missing one is made if its directory is there. -/
def writeBytes (top : Node) (path : String) (content : ByteArray) : Except OsError Node := do
  let place ← top.locate true path
  match top.get? place with
  | some (.file _) => return top.put place (.file content)
  | some _ => .error .isADirectory
  | none =>
    if (Path.parse path).slashAtEnd then .error .isADirectory
    else return top.put place (.file content)

def writeText (top : Node) (path text : String) : Except OsError Node :=
  top.writeBytes path text.toUTF8

/-- Copy a regular file. The target is emptied before anything is read, so of a file that is copied to
itself nothing is left. -/
def copyFile (top : Node) (source target : String) : Except OsError Node := do
  match ← top.find source with
  | (place, .file content) =>
    match top.locate true target with
    | .ok other => top.writeBytes target (if other = place then .empty else content)
    | .error e => .error e
  | _ =>
    .error (.invalidInput
      "the source path is neither a regular file nor a symlink to a regular file")

def readDir (top : Node) (path : String) : Except OsError (List (String × Node)) := do
  match ← top.find path with
  | (_, .dir entries) => return entries
  | _ => .error .notADirectory

/-- Make one directory, whose parent has to be there. -/
def makeDir (top : Node) (path : String) : Except OsError Node := do
  let p ← openPath path
  let place ← walkWithin top false 41 [] p.parts
  match top.get? place with
  | some _ => .error .alreadyExists
  | none => return top.put place .empty

/-- Make the directory at a path and those on the way, at most `limit` of them. -/
def makeDirsWithin : Nat → Node → String → Node × Except OsError Unit
  | 0, top, _ => (top, .ok ())
  | limit + 1, top, path =>
    if path.isEmpty then (top, .ok ())
    else
      match top.makeDir path with
      | .ok made => (made, .ok ())
      | .error .notFound =>
        match makeDirsWithin limit top (Path.parent path) with
        | (top, .error e) => (top, .error e)
        | (top, .ok ()) =>
          match top.makeDir path with
          | .ok made => (made, .ok ())
          | .error e => (top, if top.pathIsDir path then .ok () else .error e)
      | .error e => (top, if top.pathIsDir path then .ok () else .error e)

/-- Make a directory and those on the way to it, as far as they are missing. -/
def makeDirs (top : Node) (path : String) : Node × Except OsError Unit :=
  let p := Path.parse path
  if p.absolute then (top, .error .notFound) else makeDirsWithin (p.parts.length + 1) top path

/-- Remove one directory, which has to be empty. The last part has to be the name of a directory;
a link of that name is not followed. -/
def removeDir (top : Node) (path : String) : Except OsError Node := do
  let p ← openPath path
  let place ← walkWithin top true 41 [] p.parts.dropLast
  match top.get? place, p.parts.getLast? with
  | some (.dir _), some .current => .error .invalidArgument
  | some (.dir _), some .parent => .error .notEmpty
  | some (.dir entries), some (.name n) =>
    if Path.nameTooLong n then .error .nameTooLong
    else
      match entries.lookup n with
      | none => .error .notFound
      | some (.dir []) => return top.erase (place ++ [n])
      | some (.dir _) => .error .notEmpty
      | some _ => .error .notADirectory
  | some (.dir _), none => .error .notFound
  | some _, _ => .error .notADirectory
  | none, _ => .error .notFound

/-- Remove a directory with all below it. Of a symbolic link only the link is removed. What is below
a directory goes first and may take a link on the path with it; then there is nothing left to
remove. -/
def removeDirs (top : Node) (path : String) : Node × Except OsError Unit :=
  match top.locate false path with
  | .error e => (top, .error e)
  | .ok place =>
    match top.get? place with
    | none => (top, .error .notFound)
    | some (.file _) => (top, .error .notADirectory)
    | some (.link _) => (top.erase place, .ok ())
    | some (.dir _) =>
      let emptied := top.put place .empty
      match emptied.removeDir path with
      | .ok removed => (removed, .ok ())
      | .error .notFound => (emptied, .ok ())
      | .error e => (emptied, .error e)

end AutoDoc.Node
