import AutoDoc.Json.Parser
import AutoDoc.Json.Printer
import AutoDoc.Json.Record

/-!
# Messages of a worker

Client and worker exchange one JSON value a line. A request carries an identifier, an operation and
parameters; a reply carries the identifier again, a status and further data. A worker announces
itself by a ready message.
-/

namespace AutoDoc.Worker

open Json

/-- The message by which a worker says that it takes requests. -/
structure Ready where
  status : String
  version : String
deriving DecidableEq, Repr

/-- A reply of a worker; `data` holds the members that have no meaning of their own, sorted by
key. -/
structure Response where
  id : Option Nat
  status : String
  errorCode : Option String
  message : Option String
  data : List (String × Json)
deriving Repr

def Ready.ofLine? (line : String) : Option Ready := do
  let fields ← record? .lenient ["status", "version"] (← parse? line)
  return {
    status := ← required text? "status" fields
    version := ← defaulted "" text? "version" fields }

def Response.fields : List String := ["id", "status", "error_code", "message"]

/-- Read a reply. Of further members with one key the last remains. -/
def Response.ofJson? : Json → Option Response
  | .obj members =>
    if !(Json.obj members).readable then none
    else do
      let fields ← record? .strict Response.fields (.obj members)
      return {
        id := ← optional size? "id" fields
        status := ← required text? "status" fields
        errorCode := ← optional text? "error_code" fields
        message := ← optional text? "message" fields
        data := match collapse (.obj (members.filter fun m => !Response.fields.contains m.1)) with
          | .obj data => data
          | _ => [] }
  | _ => none

def Response.ofLine? (line : String) : Option Response := (parse? line).bind Response.ofJson?

/-- A reply as a value; an absent code or message is left out. -/
def Response.toJson (r : Response) : Json :=
  .obj ([("id", ofOption .nat r.id), ("status", .str r.status)] ++
    r.errorCode.toList.map (("error_code", .str ·)) ++
    r.message.toList.map (("message", .str ·)) ++ r.data)

/-- A request as a value, with its members sorted by key. A parameter takes the place of a member
with its key. -/
def request (id : Nat) (op : String) (params : List (String × Json)) : Json :=
  .obj (sortMembers ([("id", .nat id), ("op", .str op)] ++ params))

def requestLine (id : Nat) (op : String) (params : List (String × Json)) : String :=
  (request id op params).compact

end AutoDoc.Worker
