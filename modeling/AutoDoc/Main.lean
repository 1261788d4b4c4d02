import AutoDoc.Command.Execution
import AutoDoc.Host.Script
import Std.Time.DateTime.Timestamp

/-!
# The command

Reads the tree below the current directory, executes the command line on it and writes back what
changed. Sources are read by indentation, so no other program is needed. Symbolic links are left
alone.
-/

namespace AutoDoc.Shell

/-- The tree of directory entries. -/
partial def readEntries (entries : Array IO.FS.DirEntry) : IO Node := do
  let mut top := Node.empty
  for entry in entries do
    match (← entry.path.symlinkMetadata).type with
    | .dir => top := top.put [entry.fileName] (← readEntries (← entry.path.readDir))
    | .file => top := top.put [entry.fileName] (.file (← IO.FS.readBinFile entry.path))
    | _ => pure ()
  return top

def removeGone (before after : Node) : IO Unit := do
  for (names, node) in before.listing.reverse do
    if (after.get? names).isNone then
      let path := String.intercalate "/" names
      if node.isDir then IO.FS.removeDir path else IO.FS.removeFile path

def writeChanged (before after : Node) : IO Unit := do
  for (names, node) in after.listing do
    let path := String.intercalate "/" names
    match node, before.get? names with
    | .file content, some (.file old) =>
      if content != old then IO.FS.writeBinFile path content
    | .file content, _ => IO.FS.writeBinFile path content
    | .dir _, _ => IO.FS.createDirAll path
    | .link _, _ => pure ()

end AutoDoc.Shell

open AutoDoc Shell in
def main (args : List String) : IO UInt32 := do
  let before ← readEntries (← (← IO.currentDir).readDir)
  let started : Calendar.Instant := ⟨(← Std.Time.Timestamp.now).toNanosecondsSinceUnixEpoch.toInt⟩
  let (execution, env) := Command.execute ({} : Script).host args started { tree := before }
  removeGone before env.tree
  writeChanged before env.tree
  IO.print execution.stdout
  return execution.status.toUInt32
