import AutoDoc.Json.Record

/-!
# Settings

What a run may be told: how wide tabs are folded, which directories are left out or singled out,
where backups go and which programs are used. An entry of a list of directories that starts with
an asterisk matches every name with the ending behind it; any other entry matches itself.
-/

namespace AutoDoc

/-- The directories that are left out unless settings say otherwise. -/
def Settings.defaultExcluded : List String :=
  ["tugdoc_backup", "venv", "virtualenv", "__pycache__", "build", "dist", "doc", "docs", "Docs",
    ".git", ".idea", ".pytest_cache", "html", "*.egg-info"]

structure Settings where
  workers : Nat := 3
  excluded : List String := Settings.defaultExcluded
  included : List String := []
  backupFolder : String := "tugdoc_backup"
  python : String := "python3"
  indentWidth : Nat := 4
  formatter : List String := ["black"]
  importSorter : List String := ["isort"]
  nlpModule : String := "nlputilities.nlp"
deriving DecidableEq, Repr, Inhabited

namespace Settings

def entryMatches (entry name : String) : Bool :=
  match entry.toList with
  | '*' :: ending => ending.isSuffixOf name.toList
  | _ => entry == name

/-- Directories of this name are left out; the backup folder always is. -/
def excludesDir (s : Settings) (name : String) : Bool :=
  name == s.backupFolder || s.excluded.any (entryMatches · name)

/-- Directories of this name are singled out. -/
def includesDir (s : Settings) (name : String) : Bool := s.included.any (entryMatches · name)

/-- The settings with the number of workers replaced, if one is given; at least one works. -/
def withWorkers (s : Settings) : Option Nat → Settings
  | none => s
  | some n => { s with workers := max n 1 }

open Json

def fields : List String :=
  ["workers", "blacklist", "whitelist", "backup_folder", "python", "indent_width", "formatter",
    "import_sorter", "nlp_module"]

def toJson (s : Settings) : Json :=
  .obj [("workers", .nat s.workers), ("blacklist", texts s.excluded),
    ("whitelist", texts s.included), ("backup_folder", .str s.backupFolder),
    ("python", .str s.python), ("indent_width", .nat s.indentWidth),
    ("formatter", texts s.formatter), ("import_sorter", texts s.importSorter),
    ("nlp_module", .str s.nlpModule)]

/-- Read settings; every one may be missing. -/
def ofJson? (j : Json) : Option Settings := do
  let fields ← record? .lenient Settings.fields j
  let d : Settings := {}
  return {
    workers := ← defaulted d.workers size? "workers" fields
    excluded := ← defaulted d.excluded (list? text?) "blacklist" fields
    included := ← defaulted d.included (list? text?) "whitelist" fields
    backupFolder := ← defaulted d.backupFolder text? "backup_folder" fields
    python := ← defaulted d.python text? "python" fields
    indentWidth := ← defaulted d.indentWidth size? "indent_width" fields
    formatter := ← defaulted d.formatter (list? text?) "formatter" fields
    importSorter := ← defaulted d.importSorter (list? text?) "import_sorter" fields
    nlpModule := ← defaulted d.nlpModule text? "nlp_module" fields }

end Settings

end AutoDoc
