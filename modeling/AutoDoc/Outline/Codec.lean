import AutoDoc.Json.Record
import AutoDoc.Outline.Basic

/-!
# Outlines in JSON

An outline is written with all its fields, absent ones as null. Reading is lenient: every field
may be missing.
-/

namespace AutoDoc.Outline

open Json

def Variable.fields : List String := ["name"]

def Variable.toJson (v : Variable) : Json := .obj [("name", ofOption .str v.name)]

def Variable.ofJson? (j : Json) : Option Variable := do
  let fields ← record? .lenient Variable.fields j
  return { name := ← optional text? "name" fields }

def Parameter.fields : List String := ["name", "type_hint", "default"]

def Parameter.toJson (p : Parameter) : Json :=
  .obj [("name", ofOption .str p.name), ("type_hint", ofOption .str p.typeHint),
    ("default", ofOption .str p.default)]

def Parameter.ofJson? (j : Json) : Option Parameter := do
  let fields ← record? .lenient Parameter.fields j
  return {
    name := ← optional text? "name" fields
    typeHint := ← optional text? "type_hint" fields
    default := ← optional text? "default" fields }

def lineJson (n : UInt32) : Json := .nat n.toNat

def Class.fields : List String :=
  ["name", "start_line", "end_line", "documentation", "inheritance", "class_variables",
    "instance_variables", "context"]

def Class.toJson (c : Class) : Json :=
  .obj [("name", ofOption .str c.name), ("start_line", ofOption lineJson c.startLine),
    ("end_line", ofOption lineJson c.endLine),
    ("documentation", ofOption .str c.documentation),
    ("inheritance", ofOption texts c.inheritance),
    ("class_variables", ofOption (fun vs => .arr (vs.map Variable.toJson)) c.classVariables),
    ("instance_variables", ofOption (fun vs => .arr (vs.map Variable.toJson)) c.instanceVariables),
    ("context", ofOption texts c.context)]

def Class.ofJson? (j : Json) : Option Class := do
  let fields ← record? .lenient Class.fields j
  return {
    name := ← optional text? "name" fields
    startLine := ← optional word32? "start_line" fields
    endLine := ← optional word32? "end_line" fields
    documentation := ← optional text? "documentation" fields
    inheritance := ← optional (list? text?) "inheritance" fields
    classVariables := ← optional (list? Variable.ofJson?) "class_variables" fields
    instanceVariables := ← optional (list? Variable.ofJson?) "instance_variables" fields
    context := ← optional (list? text?) "context" fields }

def Function.fields : List String :=
  ["name", "start_line", "end_line", "parameters", "returns", "owner", "documentation", "context"]

def Function.toJson (f : Function) : Json :=
  .obj [("name", ofOption .str f.name), ("start_line", ofOption lineJson f.startLine),
    ("end_line", ofOption lineJson f.endLine),
    ("parameters", ofOption (fun ps => .arr (ps.map Parameter.toJson)) f.parameters),
    ("returns", ofOption .str f.returns), ("owner", ofOption .str f.owner),
    ("documentation", ofOption .str f.documentation), ("context", ofOption texts f.context)]

def Function.ofJson? (j : Json) : Option Function := do
  let fields ← record? .lenient Function.fields j
  return {
    name := ← optional text? "name" fields
    startLine := ← optional word32? "start_line" fields
    endLine := ← optional word32? "end_line" fields
    parameters := ← optional (list? Parameter.ofJson?) "parameters" fields
    returns := ← optional text? "returns" fields
    owner := ← optional text? "owner" fields
    documentation := ← optional text? "documentation" fields
    context := ← optional (list? text?) "context" fields }

def Exception.fields : List String := ["name", "alias", "start_line", "end_line"]

def Exception.toJson (e : Exception) : Json :=
  .obj [("name", ofOption .str e.name), ("alias", ofOption .str e.localName),
    ("start_line", ofOption lineJson e.startLine), ("end_line", ofOption lineJson e.endLine)]

def Exception.ofJson? (j : Json) : Option Exception := do
  let fields ← record? .lenient Exception.fields j
  return {
    name := ← optional text? "name" fields
    localName := ← optional text? "alias" fields
    startLine := ← optional word32? "start_line" fields
    endLine := ← optional word32? "end_line" fields }

def fields : List String := ["valid", "classes", "functions", "exceptions"]

def toJson (o : Outline) : Json :=
  .obj [("valid", .bool o.valid), ("classes", .arr (o.classes.map Class.toJson)),
    ("functions", .arr (o.functions.map Function.toJson)),
    ("exceptions", .arr (o.exceptions.map Exception.toJson))]

/-- Read an outline. A list or the flag may be missing, but not null. -/
def ofJson? (j : Json) : Option Outline := do
  let fields ← record? .lenient Outline.fields j
  return {
    valid := ← defaulted false bool? "valid" fields
    classes := ← defaulted [] (list? Class.ofJson?) "classes" fields
    functions := ← defaulted [] (list? Function.ofJson?) "functions" fields
    exceptions := ← defaulted [] (list? Exception.ofJson?) "exceptions" fields }

end AutoDoc.Outline
