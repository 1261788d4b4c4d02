/-!
# Natural-language toolkits

A toolkit splits identifiers into words, corrects their spelling, tags them with parts of speech
and stems them. Each request may fail, and may change the state `σ` in which the toolkit is left;
the set of known verbs is fixed.
-/

namespace AutoDoc

inductive ToolkitError where
  | unavailable (reason : String)
  | requestFailed (op message : String)
  | unexpectedReply (op : String)
deriving DecidableEq, Repr

def ToolkitError.message : ToolkitError → String
  | .unavailable reason => "NL toolkit unavailable: " ++ reason
  | .requestFailed op message => "NL toolkit request '" ++ op ++ "' failed: " ++ message
  | .unexpectedReply op => "unexpected NL toolkit reply to '" ++ op ++ "'"

/-- A word with its part of speech and its role in the phrase. -/
structure Token where
  word : String
  partOfSpeech : String
  role : String
deriving DecidableEq, Repr, Inhabited

abbrev Toolkit.Request (σ α : Type) := ExceptT ToolkitError (StateM σ) α

structure Toolkit (σ : Type) where
  segment : String → Toolkit.Request σ (List String)
  spellCorrect : List String → Toolkit.Request σ (List String)
  tag : String → Toolkit.Request σ (List Token)
  stem : List String → Toolkit.Request σ (List String)
  knownVerbs : List String

/-- Segment, correct and tag an identifier; the first failure ends it. -/
def Toolkit.tagIdentifier {σ : Type} (t : Toolkit σ) (identifier : String) :
    Toolkit.Request σ (List Token) := do
  let words ← t.segment identifier
  let corrected ← t.spellCorrect words
  t.tag (String.intercalate " " corrected)

end AutoDoc
