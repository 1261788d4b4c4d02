/-!
# Outlines

What a parser reports about a source: whether it is valid, and entries for its classes, functions
and exceptions with their line ranges, counted from one. Every part of an entry is optional here;
`Element` is the form in which usable entries are kept.
-/

namespace AutoDoc

namespace Outline

structure Variable where
  name : Option String := none
deriving DecidableEq, Repr, Inhabited

structure Parameter where
  name : Option String := none
  typeHint : Option String := none
  default : Option String := none
deriving DecidableEq, Repr, Inhabited

/-- A class. The context names the enclosing definitions, outermost first. -/
structure Class where
  name : Option String := none
  startLine : Option UInt32 := none
  endLine : Option UInt32 := none
  documentation : Option String := none
  inheritance : Option (List String) := none
  classVariables : Option (List Variable) := none
  instanceVariables : Option (List Variable) := none
  context : Option (List String) := none
deriving DecidableEq, Repr, Inhabited

/-- A function; a method names the class that owns it. -/
structure Function where
  name : Option String := none
  startLine : Option UInt32 := none
  endLine : Option UInt32 := none
  parameters : Option (List Parameter) := none
  returns : Option String := none
  owner : Option String := none
  documentation : Option String := none
  context : Option (List String) := none
deriving DecidableEq, Repr, Inhabited

/-- An exception that is raised, or handled under a local name. -/
structure Exception where
  name : Option String := none
  localName : Option String := none
  startLine : Option UInt32 := none
  endLine : Option UInt32 := none
deriving DecidableEq, Repr, Inhabited

end Outline

/-- The report of a parser about one source. -/
structure Outline where
  valid : Bool := false
  classes : List Outline.Class := []
  functions : List Outline.Function := []
  exceptions : List Outline.Exception := []
deriving DecidableEq, Repr, Inhabited

namespace Outline

def invalid : Outline := {}

def hasNoDefinitions (o : Outline) : Bool := o.classes.isEmpty && o.functions.isEmpty

end Outline

end AutoDoc
