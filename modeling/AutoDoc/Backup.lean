import AutoDoc.Tree.Access

/-!
# Backups

A backup of a root is a directory in it. What stands below the root is walked and copied entry by
entry, a directory before what it holds; the entry whose path is that of the backup is left out with
all below it, and so are symbolic links. A directory is read when the walk enters it, so what was
copied before can be met there. An older backup is replaced, and the folder has to be a single name.
The walk takes the entries of a directory by their names, where a file system may give them in any
order, and stops at the first that cannot be copied.
-/

namespace AutoDoc

namespace Backup

def notASingleName (folder : String) : OsError :=
  .invalidInput ("backup folder must be a single directory name, got '" ++ folder ++ "'")

/-- Go on in the tree that a step left, unless it failed. -/
def andThen (done : Node × Except OsError Unit) (next : Node → Node × Except OsError Unit) :
    Node × Except OsError Unit :=
  match done with
  | (top, .ok ()) => next top
  | (top, .error e) => (top, .error e)

/-- Take a step for each of a list, up to the first that fails. -/
def inTurn {α : Type} (step : α → Node → Node × Except OsError Unit) :
    List α → Node → Node × Except OsError Unit
  | [], top => (top, .ok ())
  | a :: rest, top => andThen (step a top) (inTurn step rest)

/-- Copy the entry of a directory from its path to another one, without what is below it. -/
def copyEntry (source target : String) (entry : Node) (top : Node) : Node × Except OsError Unit :=
  match entry with
  | .dir _ => top.makeDirs target
  | .file _ =>
    match top.copyFile source target with
    | .ok copied => (copied, .ok ())
    | .error e => (top, .error e)
  | .link _ => (top, .ok ())

/-- Copy an entry that the walk meets in a directory, and then by `below` what it holds, unless its
path is that of the backup. -/
def copyMet (backup source target : String)
    (below : String → String → Node → Node × Except OsError Unit) (met : String × Node)
    (top : Node) : Node × Except OsError Unit :=
  let source := Path.join source met.1
  let target := Path.join target met.1
  if Path.same source backup then (top, .ok ())
  else andThen (copyEntry source target met.2 top) fun top =>
    if met.2.isDir then below source target top else (top, .ok ())

/-- Copy what is below the directory at one path to another path, at most `depth` directories deep.
-/
def copyBelow (backup : String) : Nat → String → String → Node → Node × Except OsError Unit
  | 0, source, _, top => (top, (top.readDir source).bind fun _ => .error .nameTooLong)
  | depth + 1, source, target, top =>
    match top.readDir source with
    | .error e => (top, .error e)
    | .ok entries => inTurn (copyMet backup source target (copyBelow backup depth)) entries top

/-- A path that can be passed on has at most 4095 bytes, and each directory on the way adds to it. -/
def deepest : Nat := 4096

/-- Fill a backup directory with what is below the root. A root that is the backup is left out like
any other entry; behind a link it is walked all the same. -/
def fill (top : Node) (root folder : String) : Node × Except OsError String :=
  let path := Path.join root folder
  match top.find root with
  | .error e => (top, .error e)
  | .ok (_, node) =>
    if !node.isDir || Path.same root path && !top.pathIsLink root then (top, .ok path)
    else
      let (top, copied) := copyBelow path deepest root path top
      (top, copied.map fun _ => path)

end Backup

/-- Back up a root into a folder of it; the path of the backup is returned. -/
def Node.backup (top : Node) (root folder : String) : Node × Except OsError String :=
  if folder.isEmpty || Path.componentCount folder != 1 then
    (top, .error (Backup.notASingleName folder))
  else
    let path := Path.join root folder
    let (top, removed) := if top.pathExists path then top.removeDirs path else (top, .ok ())
    match removed with
    | .error e => (top, .error e)
    | .ok () =>
      match top.makeDirs path with
      | (top, .error e) => (top, .error e)
      | (top, .ok ()) => Backup.fill top root folder

end AutoDoc
