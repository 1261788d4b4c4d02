import AutoDoc.Docstring.Sentence
import AutoDoc.SourceText

/-!
# Documentation blocks

The lines of a complete documentation string for an element: a delimiter, sections with one empty
line between them, and a delimiter again, each line indented with tabs to the depth of the
element's body. Only the opening line depends on a toolkit.
-/

namespace AutoDoc.Docstring

def delimiter : String := "\"\"\""

/-- The type hints whose defaults are written in quotes. -/
def textHints : List String := ["str", "builtins.str"]

/-- The lines of a parameter: its default follows the placeholder, its type has a line of its
own. -/
def parameterLines (p : Parameter) : List String :=
  let quoted := p.typeHint.any fun hint => textHints.contains (Text.trim hint)
  let default := match p.default with
    | none => ""
    | some d => if quoted then ". (Default=\"" ++ d ++ "\")" else ". (Default=" ++ d ++ ")"
  let hint := match p.typeHint with
    | none => []
    | some h => if Text.isBlank h then [] else [":type " ++ p.name ++ ": " ++ h]
  (":param " ++ p.name ++ ": " ++ placeholder ++ default) :: hint

def ownParameters (conventions : Conventions) (f : Element) : List Parameter :=
  match f.parameters with
  | [] => []
  | p :: rest => if p.name == conventions.receiver then rest else p :: rest

def parameterSection (conventions : Conventions) (f : Element) : List String :=
  (ownParameters conventions f).flatMap parameterLines

def basesSection : List String → List String
  | [] => []
  | [base] => ["Extends class " ++ base ++ "."]
  | bases => ["Extends classes " ++ String.intercalate ", " bases ++ "."]

def namesSection (heading field : String) : List String → List String
  | [] => []
  | names => heading :: names.map fun n => ":" ++ field ++ " " ++ n ++ ": " ++ placeholder

/-- The lines on the constructor of a class: its documentation if it has one, else its
parameters. -/
def constructorSection (conventions : Conventions) : Option Element → List String
  | none => []
  | some c =>
    if c.isDocumented then
      (SourceText.ofText (Text.trim c.documentation)).lines.map Text.trim
    else parameterSection conventions c

def classSections (conventions : Conventions) (c : Element) : List (List String) :=
  [basesSection c.inheritance, namesSection "Methods:" "method" c.methods,
    namesSection "Attributes:" "ivar" c.classVariables,
    constructorSection conventions c.constructor]

/-- The section of a function behind its opening: parameters, result and exceptions. -/
def functionSections (conventions : Conventions) (f : Element) : List (List String) :=
  [parameterSection conventions f ++
    f.returns.toList.map (fun r => ":returns: " ++ r ++ " - " ++ placeholder) ++
    f.exceptions.map (fun e => ":raises " ++ e.displayName ++ ": " ++ placeholder)]

def sections (conventions : Conventions) (e : Element) : List (List String) :=
  if e.isClass then classSections conventions e else functionSections conventions e

/-- An empty line in front of every section that is not empty, and the section. -/
def spaced (sections : List (List String)) : List String :=
  sections.flatMap fun s => if s.isEmpty then [] else "" :: s

/-- A line at the given depth; an empty line stays empty. -/
def indented (depth : Nat) (line : String) : String :=
  if line.isEmpty then line else String.ofList (List.replicate depth '\t') ++ line

def blockWith (conventions : Conventions) (opening : String) (e : Element) : List String :=
  indented e.bodyDepth delimiter ::
    (opening :: spaced (sections conventions e)).map (indented e.bodyDepth) ++
    [indented e.bodyDepth delimiter]

def block {σ : Type} (conventions : Conventions) (toolkit : Option (Toolkit σ)) (e : Element) :
    StateM σ (List String) := do
  return blockWith conventions (← opening conventions toolkit e) e

end AutoDoc.Docstring
