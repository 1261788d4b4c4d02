import AutoDoc.Settings
import AutoDoc.Tree.Access

/-!
# Discovering source files

The files with a given extension below a root. Directories that the settings leave out are not
entered; every other has to have a path that can be passed on. If directories are singled out, a
file needs one of them on its way from the root. The root's own name never matters, and symbolic
links below it are neither followed nor listed.
-/

namespace AutoDoc

inductive DiscoveryError where
  | notFound (path : String)
  | os (error : OsError)
deriving DecidableEq, Repr

def DiscoveryError.message : DiscoveryError → String
  | .notFound path => "file not found: " ++ path
  | .os error => "IO error: " ++ error.message

namespace Discovery

/-- A file of this extension that the settings admit, given by names from the root. -/
def admits (settings : Settings) (extension : String) (names : List String) : Bool :=
  (names.getLast?.bind Path.extensionOf?) == some extension &&
    (settings.included.isEmpty || names.dropLast.any settings.includesDir)

/-- Names from the root in ascending order: the first that differ decide. -/
def inOrder : List String → List String → Bool
  | [], _ => true
  | _ :: _, [] => false
  | a :: as, b :: bs => if a = b then inOrder as bs else decide (a < b)

/-- The admitted files below a directory by names from it, in ascending order. -/
def relative (settings : Settings) (extension : String) (root : Node) : List (List String) :=
  ((root.filesBelow settings.excludesDir).filter (admits settings extension)).mergeSort inOrder

/-- A directory below the root that is to be entered has a path too long to be passed on. -/
def blocked (settings : Settings) (root : String) (node : Node) : Bool :=
  (node.dirsBelow settings.excludesDir).any fun names => Path.tooLong (Path.joinNames root names)

end Discovery

/-- The admitted files below the root as paths that start with the root as it was given. -/
def Node.discover (top : Node) (root extension : String) (settings : Settings) :
    Except DiscoveryError (List String) :=
  match top.find root with
  | .ok (_, .dir entries) =>
    if Discovery.blocked settings root (.dir entries) then .error (.os .nameTooLong)
    else .ok ((Discovery.relative settings extension (.dir entries)).map (Path.joinNames root))
  | _ => .error (.notFound root)

end AutoDoc
