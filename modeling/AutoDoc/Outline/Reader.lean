import AutoDoc.Outline.Basic
import AutoDoc.Outline.Blocks
import AutoDoc.Text.Letter

/-!
# Reading an outline by indentation

A small reader for Python sources with headers on one line. A source is valid when its strings are
closed and its blocks well nested. Entries come from the headers of classes and functions, from
statements that raise an exception and from handlers that name one with an alias. The body of a
definition reaches to the last line, blank ones aside, that is indented deeper than the header or
lies in a string.
-/

namespace AutoDoc.Outline

open AutoDoc.Text

/-- The pieces between separators that stand outside brackets, from a depth of brackets on. -/
def splitTopFrom (separator : Char) : Int → List Char → List (List Char)
  | _, [] => [[]]
  | depth, c :: rest =>
    let depth :=
      if c == '(' || c == '[' || c == '\x7b' then depth + 1
      else if c == ')' || c == ']' || c == '\x7d' then depth - 1
      else depth
    if c == separator && depth == 0 then [] :: splitTopFrom separator depth rest
    else extendFirst [c] (splitTopFrom separator depth rest)

/-- The pieces between commas outside brackets, trimmed; an empty last one is dropped. -/
def splitArguments (cs : List Char) : List (List Char) :=
  let pieces := (splitTopFrom ',' 0 cs).map trimChars
  if pieces.getLast? == some [] then pieces.dropLast else pieces

/-- What stands between the first opening and the last closing parenthesis. -/
def betweenParens? (cs : List Char) : Option (List Char) :=
  match cs.dropWhile (· != '(') with
  | [] => none
  | _ :: inner =>
    match dropRightWhile (· != ')') inner with
    | [] => none
    | closed => some closed.dropLast

def unquoteWith? (quote : Char) (cs : List Char) : Option (List Char) :=
  if 2 ≤ cs.length ∧ cs.head? = some quote ∧ cs.getLast? = some quote then some cs.tail.dropLast
  else none

/-- Take quotes off a text that is written in them. -/
def unquote (cs : List Char) : List Char :=
  ((unquoteWith? '"' cs).orElse fun _ => unquoteWith? '\'' cs).getD cs

/-- The part before a separator and, if it occurs, the part behind it. -/
def cutAt (separator : Char) (cs : List Char) : List Char × Option (List Char) :=
  match cutChars? [separator] cs with
  | some (before, after) => (before, some after)
  | none => (cs, none)

/-- A parameter as written in a header; the markers of keyword-only and positional-only parameters
are no parameters. -/
def Parameter.ofChars? (cs : List Char) : Option Parameter :=
  let cs := trimChars (cs.dropWhile (· == '*'))
  if cs.isEmpty || cs == ['/'] then none
  else
    let (left, default) := cutAt '=' cs
    let left := if default.isSome then trimChars left else left
    let (name, hint) := cutAt ':' left
    let name := if hint.isSome then trimChars name else name
    some {
      name := some (String.ofList name)
      typeHint := hint.map fun h => String.ofList (trimChars h)
      default := default.map fun d => String.ofList (unquote (trimChars d)) }

def headName (cs : List Char) : String := String.ofList (cs.takeWhile isWordChar)

def headDottedName (cs : List Char) : String :=
  String.ofList (cs.takeWhile fun c => isWordChar c || c == '.')

/-- Drop `mark` from the head as long as it stands there, at most `limit` times. -/
def dropMarks (mark : List Char) : Nat → List Char → List Char
  | 0, cs => cs
  | limit + 1, cs =>
    match afterMark? mark cs with
    | some rest => dropMarks mark limit rest
    | none => cs

/-- The lines of a string up to its closing delimiter. -/
def untilMark (mark : List Char) : List ScannedLine → List (List Char)
  | [] => []
  | l :: rest =>
    match cutChars? mark l.text.toList with
    | some (before, _) => [before]
    | none => l.text.toList :: untilMark mark rest

/-- The documentation string that opens with `q`, given what follows the opening delimiter on its
line and the lines behind. -/
def documentationFrom (q : TripleQuote) (first : List Char) (more : List ScannedLine) : String :=
  match cutChars? q.text.toList first with
  | some (before, _) => String.ofList (trimChars before)
  | none =>
    let lines := (first :: untilMark q.text.toList more).map fun l => String.ofList (trimChars l)
    trim (String.intercalate "\n" lines)

/-- The documentation of a definition with the given body: a string that opens on the first line
of it that is neither blank nor a comment. -/
def documentationOf (body : List ScannedLine) : String :=
  match body.dropWhile (·.blank) with
  | [] => ""
  | l :: more =>
    match TripleQuote.all.find? fun q => q.text.toList.isPrefixOf l.trimmed with
    | some q => documentationFrom q (l.trimmed.drop 3) more
    | none => ""

/-- The line still belongs to the body of a definition with the given indentation. -/
def inBody (indent : Nat) (l : ScannedLine) : Bool := l.blank || l.inString || indent < l.indent

/-- The body of a definition with the given indentation, from the lines behind its header. -/
def bodyOf (indent : Nat) (lines : List ScannedLine) : List ScannedLine :=
  ((lines.takeWhile (inBody indent)).reverse.dropWhile fun l => l.blank && !l.inString).reverse

/-- The variable that a line assigns, if it is an assignment to a plain name. -/
def assigned? (l : ScannedLine) : Option Variable :=
  match cutAt '=' l.trimmed with
  | (_, none) => none
  | (target, some _) =>
    let target := trimChars (target.takeWhile (· != ':'))
    if !target.isEmpty && target.all isWordChar then some { name := some (String.ofList target) }
    else none

/-- The variables assigned on the level of a class body. -/
def classVariablesOf (body : List ScannedLine) : List Variable :=
  match body.find? (·.isCode) with
  | none => []
  | some first => (body.filter fun l => l.indent == first.indent && !l.inString).filterMap assigned?

structure Scope where
  name : String
  isClass : Bool
  indent : Nat
deriving DecidableEq, Repr

inductive Entry where
  | ofClass (c : Class)
  | ofFunction (f : Function)
  | ofException (e : Exception)
deriving DecidableEq, Repr

def lineNumber (index : Nat) : UInt32 := UInt32.ofNat (index + 1)

/-- The names of the enclosing definitions, outermost first; scopes are kept innermost first. -/
def contextOf (scopes : List Scope) : List String := (scopes.map (·.name)).reverse

/-- The entry of a class header at `index`, whose body follows. -/
def classEntry (scopes : List Scope) (index : Nat) (l : ScannedLine) (body : List ScannedLine) :
    Class :=
  let rest := l.trimmed.drop "class ".length
  let bases := (betweenParens? (rest.takeWhile (· != ':'))).map splitArguments
  { name := some (headName rest)
    startLine := some (lineNumber index)
    endLine := some (lineNumber (index + body.length))
    documentation := some (documentationOf body)
    inheritance := some ((bases.getD []).map String.ofList)
    classVariables := some (classVariablesOf body)
    instanceVariables := some []
    context := some (contextOf scopes) }

/-- A function header from its name on. -/
def functionRest (l : ScannedLine) : List Char :=
  let afterAsync := dropMarks "async ".toList l.trimmed.length l.trimmed
  dropMarks "def ".toList afterAsync.length afterAsync

/-- The class that directly encloses a definition; empty when it is no class. -/
def ownerOf : List Scope → String
  | [] => ""
  | scope :: _ => if scope.isClass then scope.name else ""

def returnsOf? (rest : List Char) : Option String :=
  (cutLast? "->" (String.ofList rest)).map fun (_, hint) =>
    String.ofList (trimChars (dropRightWhile (· == ':') (trimChars hint.toList)))

/-- The entry of a function header at `index`, whose body follows. -/
def functionEntry (scopes : List Scope) (index : Nat) (l : ScannedLine)
    (body : List ScannedLine) : Function :=
  let rest := functionRest l
  let arguments := ((betweenParens? rest).map splitArguments).getD []
  { name := some (headName rest)
    startLine := some (lineNumber index)
    endLine := some (lineNumber (index + body.length))
    parameters := some (arguments.filterMap Parameter.ofChars?)
    returns := returnsOf? rest
    owner := some (ownerOf scopes)
    documentation := some (documentationOf body)
    context := some (contextOf scopes) }

/-- The entry of a handler that names an exception and its alias. -/
def handlerOf? (index : Nat) (rest : List Char) : Option Exception :=
  (cutChars? " as ".toList (dropRightWhile (· == ':') rest)).map fun (name, handle) =>
    { name := some (String.ofList (trimChars name))
      localName := some (String.ofList (trimChars handle))
      startLine := some (lineNumber index)
      endLine := some (lineNumber index) }

def raiseEntry (index : Nat) (rest : List Char) : Exception :=
  { name := some (headDottedName rest)
    localName := none
    startLine := some (lineNumber index)
    endLine := some (lineNumber index) }

/-- The entry of a code line with its scopes, and the scope that it opens. -/
def entryOf (scopes : List Scope) (index : Nat) (l : ScannedLine) (rest : List ScannedLine) :
    Option Entry × Option Scope :=
  match afterMark? "raise ".toList l.trimmed with
  | some exception => (some (.ofException (raiseEntry index exception)), none)
  | none =>
    match afterMark? "except ".toList l.trimmed with
    | some handled => ((handlerOf? index handled).map .ofException, none)
    | none =>
      match l.keyword? with
      | none => (none, none)
      | some .classDef =>
        let c := classEntry scopes index l (bodyOf l.indent rest)
        (some (.ofClass c), some ⟨c.name.getD "", true, l.indent⟩)
      | some .functionDef =>
        let f := functionEntry scopes index l (bodyOf l.indent rest)
        (some (.ofFunction f), some ⟨f.name.getD "", false, l.indent⟩)

/-- The entries of the lines from `index` on, within the given scopes. -/
def entriesFrom : List Scope → Nat → List ScannedLine → List Entry
  | _, _, [] => []
  | scopes, index, l :: rest =>
    if l.isCode then
      let scopes := scopes.dropWhile (l.indent ≤ ·.indent)
      let (entry, scope) := entryOf scopes index l rest
      entry.toList ++ entriesFrom (scope.toList ++ scopes) (index + 1) rest
    else entriesFrom scopes (index + 1) rest

def ofEntries (entries : List Entry) : Outline where
  valid := true
  classes := entries.filterMap fun
    | .ofClass c => some c
    | _ => none
  functions := entries.filterMap fun
    | .ofFunction f => some f
    | _ => none
  exceptions := entries.filterMap fun
    | .ofException e => some e
    | _ => none

def read (source : String) : Outline :=
  let (lines, opened) := ScannedLine.scan (SourceText.ofText source)
  if opened.isNone && ScannedLine.wellNested lines then ofEntries (entriesFrom [] 0 lines)
  else invalid

end AutoDoc.Outline
