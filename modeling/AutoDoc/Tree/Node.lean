/-!
# File trees

A file tree is a value: files with their bytes, symbolic links with their targets, and directories
with named entries. Operations address nodes by the list of names from the top; they follow no
links. `Node.get?` is the view through which the others are described.
-/

namespace AutoDoc

inductive Node where
  | file (content : ByteArray)
  | link (target : String)
  | dir (entries : List (String × Node))

namespace Node

instance : Inhabited Node := ⟨.dir []⟩

def empty : Node := .dir []

def isDir : Node → Bool
  | .dir _ => true
  | _ => false

def isFile : Node → Bool
  | .file _ => true
  | _ => false

def isLink : Node → Bool
  | .link _ => true
  | _ => false

/-- Put a node under a name into entries sorted by name, in the place of an older one. -/
def putEntry (name : String) (node : Node) : List (String × Node) → List (String × Node)
  | [] => [(name, node)]
  | (n, old) :: rest =>
    if n = name then (name, node) :: rest
    else if name < n then (name, node) :: (n, old) :: rest
    else (n, old) :: putEntry name node rest

def removeEntry (name : String) (entries : List (String × Node)) : List (String × Node) :=
  entries.filter fun e => e.1 != name

def get? : List String → Node → Option Node
  | [], node => some node
  | name :: rest, .dir entries => (entries.lookup name).bind (get? rest)
  | _ :: _, _ => none

/-- Put a node at the end of a list of names. Where the names do not lead through directories, the
tree stays as it is. -/
def put : Node → List String → Node → Node
  | _, [], new => new
  | .dir entries, [name], new => .dir (putEntry name new entries)
  | .dir entries, name :: rest, new =>
    match entries.lookup name with
    | some child => .dir (putEntry name (put child rest new) entries)
    | none => .dir entries
  | node, _ :: _, _ => node

/-- Remove the node at the end of a list of names; the top cannot be removed. -/
def erase : List String → Node → Node
  | [], node => node
  | [name], .dir entries => .dir (removeEntry name entries)
  | name :: rest, .dir entries =>
    match entries.lookup name with
    | some child => .dir (putEntry name (erase rest child) entries)
    | none => .dir entries
  | _ :: _, node => node

/-- Put a node at the end of a list of names, making the directories on the way. -/
def putWithParents : Node → List String → Node → Node
  | _, [], new => new
  | .dir entries, name :: rest, new =>
    .dir (putEntry name (putWithParents ((entries.lookup name).getD empty) rest new) entries)
  | node, _ :: _, _ => node

mutual

/-- Every node below, with the names that lead to it, parents first. -/
def listing : Node → List (List String × Node)
  | .dir entries => listEntries entries
  | _ => []

def listEntries : List (String × Node) → List (List String × Node)
  | [] => []
  | (name, node) :: rest =>
    ([name], node) :: (listing node).map (fun (path, n) => (name :: path, n)) ++ listEntries rest

end

mutual

/-- The regular files below, with the names that lead to them; directories whose names are
`pruned` are not entered. -/
def filesBelow (pruned : String → Bool) : Node → List (List String)
  | .dir entries => filesBelowEntries pruned entries
  | _ => []

def filesBelowEntries (pruned : String → Bool) : List (String × Node) → List (List String)
  | [] => []
  | (name, node) :: rest =>
    (if node.isFile then [[name]]
      else if pruned name then []
      else (filesBelow pruned node).map (name :: ·)) ++
      filesBelowEntries pruned rest

end

mutual

/-- The directories below, with the names that lead to them, parents first; directories whose names
are `pruned` are neither listed nor entered. -/
def dirsBelow (pruned : String → Bool) : Node → List (List String)
  | .dir entries => dirsBelowEntries pruned entries
  | _ => []

def dirsBelowEntries (pruned : String → Bool) : List (String × Node) → List (List String)
  | [] => []
  | (name, node) :: rest =>
    (if node.isDir && !pruned name then [name] :: (dirsBelow pruned node).map (name :: ·)
      else []) ++
      dirsBelowEntries pruned rest

end

end Node

end AutoDoc
