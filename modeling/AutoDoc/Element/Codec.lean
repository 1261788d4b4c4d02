import AutoDoc.Element.Basic
import AutoDoc.Json.Record

/-!
# Elements in JSON

Elements are written with all their fields; of a parameter or an exception an absent option is
left out. In reading, only optional fields may be missing.
-/

namespace AutoDoc

open Json

def presentMember (key : String) : Option String → List (String × Json)
  | none => []
  | some s => [(key, .str s)]

namespace ElementKind

def text : ElementKind → String
  | .classDef => "class"
  | .function => "function"
  | .method => "class_method"

def ofText? : String → Option ElementKind
  | "class" => some .classDef
  | "function" => some .function
  | "class_method" => some .method
  | _ => none

/-- A kind is a text, or an object with that text as its only key and null under it. -/
def ofJson? : Json → Option ElementKind
  | .str s => ofText? s
  | .obj [(k, .null)] => ofText? k
  | _ => none

end ElementKind

namespace Parameter

def fields : List String := ["name", "type_hint", "default_value"]

def toJson (p : Parameter) : Json :=
  .obj (("name", .str p.name) :: presentMember "type_hint" p.typeHint ++
    presentMember "default_value" p.default)

def ofJson? (j : Json) : Option Parameter := do
  let fields ← record? .strict Parameter.fields j
  return {
    name := ← required text? "name" fields
    typeHint := ← optional text? "type_hint" fields
    default := ← optional text? "default_value" fields }

end Parameter

namespace ExceptionUse

def fields : List String := ["exception_name", "alias", "start_line", "end_line"]

def toJson (e : ExceptionUse) : Json :=
  .obj (("exception_name", .str e.name) :: presentMember "alias" e.localName ++
    [("start_line", .nat e.startLine.toNat), ("end_line", .nat e.endLine.toNat)])

def ofJson? (j : Json) : Option ExceptionUse := do
  let fields ← record? .strict ExceptionUse.fields j
  return {
    name := ← required text? "exception_name" fields
    localName := ← optional text? "alias" fields
    startLine := ← required word32? "start_line" fields
    endLine := ← required word32? "end_line" fields }

end ExceptionUse

namespace Element

def variableJson (name : String) : Json := .obj [("name", .str name)]

def variableName? (j : Json) : Option String := do
  let fields ← record? .strict ["name"] j
  required text? "name" fields

def fields : List String :=
  ["name", "kind", "start_line", "end_line", "documentation", "enclosing_context", "owner",
    "parameters", "return_type_hint", "inheritance", "methods", "constructor", "class_variables",
    "instance_variables", "exceptions", "total_lines", "lines_of_code", "parameter_count",
    "annotated_parameter_count"]

mutual

/-- An element with all its fields; the constructor is an element in its place, or null. -/
def toJson : Element → Json
  | e@{ constructor := c, .. } =>
    .obj [("name", .str e.name), ("kind", .str e.kind.text),
      ("start_line", .nat e.startLine.toNat), ("end_line", .nat e.endLine.toNat),
      ("documentation", .str e.documentation), ("enclosing_context", texts e.context),
      ("owner", .str e.owner), ("parameters", .arr (e.parameters.map Parameter.toJson)),
      ("return_type_hint", ofOption .str e.returns), ("inheritance", texts e.inheritance),
      ("methods", texts e.methods), ("constructor", constructorJson c),
      ("class_variables", .arr (e.classVariables.map variableJson)),
      ("instance_variables", .arr (e.instanceVariables.map variableJson)),
      ("exceptions", .arr (e.exceptions.map ExceptionUse.toJson)),
      ("total_lines", .nat e.totalLines.toNat), ("lines_of_code", .nat e.linesOfCode.toNat),
      ("parameter_count", .nat e.parameterCount),
      ("annotated_parameter_count", .nat e.annotatedCount)]

def constructorJson : Option Element → Json
  | none => .null
  | some e => toJson e

end

/-- Read an element whose constructors are nested at most `limit` deep. -/
def decode? : Nat → Json → Option Element
  | 0, _ => none
  | limit + 1, j => do
    let fields ← record? .strict Element.fields j
    return {
      name := ← required text? "name" fields
      kind := ← required ElementKind.ofJson? "kind" fields
      startLine := ← required word32? "start_line" fields
      endLine := ← required word32? "end_line" fields
      documentation := ← required text? "documentation" fields
      context := ← required (list? text?) "enclosing_context" fields
      owner := ← required text? "owner" fields
      parameters := ← required (list? Parameter.ofJson?) "parameters" fields
      returns := ← optional text? "return_type_hint" fields
      inheritance := ← required (list? text?) "inheritance" fields
      methods := ← required (list? text?) "methods" fields
      constructor := ← optional (decode? limit) "constructor" fields
      classVariables := ← required (list? variableName?) "class_variables" fields
      instanceVariables := ← required (list? variableName?) "instance_variables" fields
      exceptions := ← required (list? ExceptionUse.ofJson?) "exceptions" fields
      totalLines := ← required word32? "total_lines" fields
      linesOfCode := ← required word32? "lines_of_code" fields
      parameterCount := ← required size? "parameter_count" fields
      annotatedCount := ← required size? "annotated_parameter_count" fields }

/-- Read an element. Constructors are nested at most as deep as the value is. -/
def ofJson? (j : Json) : Option Element := decode? j.depth j

end Element

end AutoDoc
