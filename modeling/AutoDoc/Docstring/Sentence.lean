import AutoDoc.Element.Basic
import AutoDoc.Text.Letter
import AutoDoc.Toolkit.Basic

/-!
# Descriptions

The sentences that describe an element. Some names have fixed sentences; for the others a toolkit
tags the name and a sentence is built from the tokens. Without a toolkit, without tokens, or after
any failing request the description is a placeholder for a human to complete.
-/

namespace AutoDoc.Docstring

/-- The text that a human has to replace. -/
def placeholder : String := "XXX"

/-- The description of a class about whose name nothing is known. -/
def classPlaceholder : String := "This class XXX ."

/-- The description of a function about whose name nothing is known. -/
def functionPlaceholder : String := "This method is XXX ."

/-- Sentences for names that start with a short verb. -/
def verbSentences : List (String × String) :=
  [("get", "This is a getter method."),
    ("add", "This is an adder method."),
    ("set", "This is a setter method.")]

def specialSentences : List (String × String) :=
  [("__init__", "This overrides the built-in object Initializator."),
    ("__del__", "This overrides the built-in object Destructor."),
    ("__new__", "This overrides the built-in object Constructor."),
    ("__repr__",
      "This overrides the built-in (Formal) String representation of the object."),
    ("__str__",
      "This overrides the built-in (Informal) String representation of the object."),
    ("__format__",
      "This overrides the built-in Formatted string representation of the object."),
    ("__bytes__", "This overrides the built-in Bytes representation of the object."),
    ("__bool__", "This overrides the built-in Boolean representation of the object."),
    ("__hash__", "This overrides the built-in Hash representation of the object."),
    ("__call__",
      "This overrides the built-in behaviour when the object is called like a function."),
    ("__lt__",
      "This describes how the object behaves when the Less Than operation is performed with it."),
    ("__le__",
      "This describes how the object behaves when the Less or Equal operation is performed with it."),
    ("__eq__",
      "This describes how the object behaves when the Equal operation is performed with it."),
    ("__ne__",
      "This describes how the object behaves when the Not Equal operation is performed with it."),
    ("__gt__",
      "This describes how the object behaves when the Greater Than operation is performed with it."),
    ("__ge__",
      "This describes how the object behaves when the Greater or Equal operation is performed with it."),
    ("__mul__",
      "This describes how the object behaves when the multiplication operation is performed with it."),
    ("__add__",
      "This describes how the object behaves when the sum operation is performed with it."),
    ("__div__",
      "This describes how the object behaves when the division operation is performed with it."),
    ("__sub__",
      "This describes how the object behaves when the subtraction operation is performed with it."),
    ("__iter__",
      "This defines how to iterate through the object, when an iteration operation is performed on it."),
    ("__next__",
      "This defines how to retrieve the next element when iterating through the object."),
    ("__len__", "This overrides the built-in Length representation of the object."),
    ("__contains__",
      "This overrides the representation of the elements contained in the object."),
    ("__copy__", "This overrides the Copy operation of the current object.")]

/-- The sentence for a name that starts with a short verb, in any case of letters. -/
def verbSentence? (name : String) : Option String :=
  (verbSentences.find? fun s => s.1.toList.isPrefixOf (Text.lower name).toList).map (·.2)

/-- The sentence for the name of a special method, in any case of letters. -/
def specialSentence? (name : String) : Option String :=
  (specialSentences.find? fun s => s.1 == Text.lower name).map (·.2)

/-- The indefinite article by the first letter: `an` before an ASCII vowel. -/
def article (word : String) : String :=
  match word.toList.head? with
  | some c => if "aeiouAEIOU".toList.contains c then "an" else "a"
  | none => "a"

def phrase (tokens : List Token) : String := String.intercalate " " (tokens.map (·.word))

/-- The sentence for a class from its tagged name: if it has a noun, exactly one root and further
words, the root is set apart. -/
def classSentence (tokens : List Token) : String :=
  match tokens.filter (·.role == "ROOT") with
  | [root] =>
    if tokens.any (·.partOfSpeech == "NOUN") && decide (1 < tokens.length) then
      "This class represents the/a " ++ root.word ++ " of " ++
        phrase (tokens.filter (·.role != "ROOT")) ++ "s."
    else "This class represents " ++ phrase tokens ++ "s."
  | _ => "This class represents " ++ phrase tokens ++ "s."

/-- The sentence for an action: the stem of its verb and the words behind. -/
def actionSentence (stem : String) (rest : List Token) : String :=
  if rest.isEmpty then "This method is for " ++ stem ++ "ing."
  else "This method is for " ++ stem ++ "ing the " ++ phrase rest ++ "."

/-- The sentence for a function from its tagged name, if there are tokens. A name that starts with
a verb is described by the verb's stem. -/
def functionSentence {σ : Type} (t : Toolkit σ) (name : String) :
    Toolkit.Request σ (Option String) := do
  match ← t.tagIdentifier name with
  | [] => return none
  | first :: rest =>
    if first.partOfSpeech == "VERB" || t.knownVerbs.contains first.word then
      let stems ← t.stem [first.word]
      return some (actionSentence (stems.head?.getD first.word) rest)
    else
      return some ("This method performs " ++ article first.word ++ " " ++
        phrase (first :: rest) ++ ".")

def describeClass {σ : Type} (toolkit : Option (Toolkit σ)) (name : String) : StateM σ String := do
  match toolkit with
  | none => return classPlaceholder
  | some t =>
    match ← (t.tagIdentifier name).run with
    | .ok (token :: tokens) => return classSentence (token :: tokens)
    | _ => return classPlaceholder

def describeFunction {σ : Type} (toolkit : Option (Toolkit σ)) (name : String) :
    StateM σ String := do
  match toolkit with
  | none => return functionPlaceholder
  | some t =>
    match ← (functionSentence t name).run with
    | .ok (some sentence) => return sentence
    | _ => return functionPlaceholder

/-- The sentence on where a function belongs. A method without a leading receiver is static. -/
def scopeSentence (conventions : Conventions) (f : Element) : String :=
  if f.isMethod then
    let static := match f.parameters with
      | p :: _ => p.name != conventions.receiver
      | [] => true
    "It is a " ++ (if static then "static " else "") ++ "class method of " ++ f.owner ++ "."
  else "It is a global method."

/-- The first line of a documentation text: for a class its description, for a function the
sentence of its verb if there is one, its description, and where it belongs. -/
def opening {σ : Type} (conventions : Conventions) (toolkit : Option (Toolkit σ)) (e : Element) :
    StateM σ String := do
  if e.isClass then describeClass toolkit e.name
  else
    let description ← match specialSentence? e.name with
      | some sentence => pure sentence
      | none => describeFunction toolkit e.name
    return String.intercalate " "
      ((verbSentence? e.name).toList ++ [description, scopeSentence conventions e])

end AutoDoc.Docstring
