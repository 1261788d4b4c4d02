import AutoDoc.Text.Letter
import AutoDoc.Text.White
import AutoDoc.Toolkit.Basic

/-!
# Table-driven toolkits

A toolkit that answers from tables. Identifiers are split at underscores and where a lower-case
letter or digit is followed by an upper-case letter, and every word is put in lower case, unless a
table gives the words of an identifier. Words without a tag are tagged `X` and `dep`; words without
a stem are their own stem. Any of the four requests may be switched off.
-/

namespace AutoDoc

/-- The four requests to a toolkit. -/
inductive ToolkitOp where
  | segment
  | spellCorrect
  | tag
  | stem
deriving DecidableEq, Repr

def ToolkitOp.name : ToolkitOp → String
  | .segment => "segment"
  | .spellCorrect => "spell_correct"
  | .tag => "pos_tag"
  | .stem => "stem"

def ToolkitOp.ofName? : String → Option ToolkitOp
  | "segment" => some .segment
  | "spell_correct" => some .spellCorrect
  | "pos_tag" => some .tag
  | "stem" => some .stem
  | _ => none

structure TableToolkit where
  tags : List (String × String × String) := []
  verbs : List String := []
  stems : List (String × String) := []
  segments : List (String × List String) := []
  spelling : List (String × String) := []
  failing : List ToolkitOp := []
  noStems : Bool := false
deriving DecidableEq, Repr, Inhabited

namespace TableToolkit

def offline : TableToolkit := { failing := [.segment, .spellCorrect, .tag, .stem] }

/-- A request that is switched off fails, any other is answered. -/
def answer {α : Type} (t : TableToolkit) (op : ToolkitOp) (a : α) : Except ToolkitError α :=
  if t.failing.contains op then .error (.requestFailed op.name "toolkit offline") else .ok a

/-- The pieces of an identifier in lower case, empty ones included; `afterLower` says that the
character before was a lower-case letter or a digit. -/
def segmentFrom : Bool → List Char → List (List Char)
  | _, [] => [[]]
  | afterLower, c :: cs =>
    if c = '_' then [] :: segmentFrom false cs
    else
      let pieces :=
        Text.extendFirst (Text.lowerChar c) (segmentFrom (Text.isLowercase c || c.isDigit) cs)
      if Text.isUppercase c && afterLower then [] :: pieces else pieces

def segment (t : TableToolkit) (identifier : String) : Except ToolkitError (List String) :=
  t.answer .segment <| match t.segments.lookup identifier with
    | some words => words
    | none => ((segmentFrom false identifier.toList).filter (!·.isEmpty)).map String.ofList

def spellCorrect (t : TableToolkit) (words : List String) : Except ToolkitError (List String) :=
  t.answer .spellCorrect (words.map fun w => (t.spelling.lookup w).getD w)

def tag (t : TableToolkit) (phrase : String) : Except ToolkitError (List Token) :=
  t.answer .tag <| (Text.words phrase).map fun w =>
    match t.tags.lookup w with
    | some (partOfSpeech, role) => ⟨w, partOfSpeech, role⟩
    | none => ⟨w, "X", "dep"⟩

def stem (t : TableToolkit) (words : List String) : Except ToolkitError (List String) :=
  t.answer .stem (if t.noStems then [] else words.map fun w => (t.stems.lookup w).getD w)

/-- The tables as a toolkit that no request changes. -/
def toolkit {σ : Type} (t : TableToolkit) : Toolkit σ where
  segment identifier := ExceptT.mk (pure (t.segment identifier))
  spellCorrect words := ExceptT.mk (pure (t.spellCorrect words))
  tag phrase := ExceptT.mk (pure (t.tag phrase))
  stem words := ExceptT.mk (pure (t.stem words))
  knownVerbs := t.verbs

end TableToolkit

end AutoDoc
