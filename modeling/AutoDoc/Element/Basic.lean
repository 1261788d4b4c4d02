import AutoDoc.Text.White

/-!
# Elements

An element is the uniform description of a class, function or method. Its lines are counted from
one and inclusive, and refer to the text that was parsed. Documentation that is blank counts as
none.
-/

namespace AutoDoc

inductive ElementKind where
  | classDef
  | function
  | method
deriving DecidableEq, Repr, Inhabited

/-- A parameter; a default is kept as written. -/
structure Parameter where
  name : String
  typeHint : Option String := none
  default : Option String := none
deriving DecidableEq, Repr, Inhabited

def Parameter.isAnnotated (p : Parameter) : Bool := p.typeHint.any fun h => !Text.isBlank h

/-- An exception that a statement raises or handles, with the lines of that statement. -/
structure ExceptionUse where
  name : String
  localName : Option String := none
  startLine : UInt32
  endLine : UInt32
deriving DecidableEq, Repr, Inhabited

namespace ExceptionUse

/-- The lines lie between two lines and touch neither. -/
def isStrictlyWithin (e : ExceptionUse) (startLine endLine : UInt32) : Bool :=
  startLine < e.startLine && e.endLine < endLine

/-- The name, with the local name if there is one. -/
def displayName (e : ExceptionUse) : String :=
  match e.localName with
  | some l => if l.isEmpty then e.name else e.name ++ " as " ++ l
  | none => e.name

end ExceptionUse

/-- A class, function or method. Methods, constructor and exceptions are filled in by
resolution. -/
structure Element where
  name : String
  kind : ElementKind
  startLine : UInt32
  endLine : UInt32
  documentation : String := ""
  context : List String := []
  owner : String := ""
  parameters : List Parameter := []
  returns : Option String := none
  inheritance : List String := []
  methods : List String := []
  constructor : Option Element := none
  classVariables : List String := []
  instanceVariables : List String := []
  exceptions : List ExceptionUse := []
  totalLines : UInt32
  linesOfCode : UInt32
  parameterCount : Nat := 0
  annotatedCount : Nat := 0
deriving Repr, Inhabited

namespace Element

def isDocumented (e : Element) : Bool := !Text.isBlank e.documentation

def isClass (e : Element) : Bool := e.kind == .classDef

def isMethod (e : Element) : Bool := e.kind == .method

/-- How deep the body is indented: a level for each enclosing definition and one for its own. -/
def bodyDepth (e : Element) : Nat := e.context.length + 1

/-- The name behind the names of the enclosing definitions, with dots between. -/
def qualifiedName (e : Element) : String := String.intercalate "." (e.context ++ [e.name])

end Element

/-- The names by which a language marks initializers and receivers. -/
structure Conventions where
  initializer : String := "__init__"
  receiver : String := "self"
deriving DecidableEq, Repr, Inhabited

/-- The elements of one source: classes, functions and uses of exceptions, each in the order of
the parser. -/
structure Elements where
  classes : List Element := []
  functions : List Element := []
  exceptions : List ExceptionUse := []
deriving Repr, Inhabited

end AutoDoc
