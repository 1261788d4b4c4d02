import AutoDoc.Element.Basic

/-!
# Resolving relations between elements

Functions collect the uses of exceptions strictly within their lines; classes collect the names of
the functions they own and their constructor, the first owned function with the initializer's
name. `Elements.toDocument` gives the elements that need documentation in the order in which blocks
are spliced in: from the bottom of the source to its top, so that line numbers above stay valid.
-/

namespace AutoDoc

namespace Element

/-- The uses of exceptions strictly within the lines of an element. -/
def exceptionsWithin (e : Element) (uses : List ExceptionUse) : List ExceptionUse :=
  uses.filter fun u => u.isStrictlyWithin e.startLine e.endLine

/-- The first occurrence of every name that is not in `seen`. -/
def firstNames : List String → List String → List String
  | _, [] => []
  | seen, name :: rest =>
    if seen.contains name then firstNames seen rest else name :: firstNames (name :: seen) rest

/-- The names of the functions that a class owns, each once, in order. -/
def methodsOf (className : String) (functions : List Element) : List String :=
  firstNames [] ((functions.filter fun f => f.owner == className).map (·.name))

/-- The first function that a class owns under the initializer's name. -/
def constructorOf? (className initializer : String) (functions : List Element) : Option Element :=
  functions.find? fun f => f.owner == className && f.name == initializer

/-- Put an element into a list that descends by start line, unless its line is taken. -/
def insertDescending (e : Element) : List Element → List Element
  | [] => [e]
  | x :: rest =>
    if x.startLine < e.startLine then e :: x :: rest
    else if x.startLine = e.startLine then x :: rest
    else x :: insertDescending e rest

/-- For every start line the first element with it, in descending order of lines. -/
def firstPerLine (es : List Element) : List Element :=
  es.foldl (fun sorted e => insertDescending e sorted) []

end Element

namespace Elements

/-- Attach exceptions to functions, then methods and constructors to classes. -/
def resolve (conventions : Conventions) (es : Elements) : Elements :=
  let functions := es.functions.map fun f =>
    { f with exceptions := f.exceptionsWithin es.exceptions }
  let classes := es.classes.map fun c =>
    { c with
      methods := Element.methodsOf c.name functions
      constructor := Element.constructorOf? c.name conventions.initializer functions }
  { es with classes, functions }

/-- The elements without documentation, from the bottom of the source to its top. Of elements that
start on one line only the first counts, documented or not; classes come before functions. -/
def toDocument (es : Elements) : List Element :=
  (Element.firstPerLine (es.classes ++ es.functions)).filter fun e => !e.isDocumented

end Elements

end AutoDoc
