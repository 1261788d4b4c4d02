import AutoDoc.Json.Value

/-!
# Records in JSON

A record is an object, or an array that gives the fields by position. In an object unknown members
are passed over and a known one may stand only once. A lenient record may lack any field; a strict
one given by position has to be complete. No value is ever converted to another type.
-/

namespace AutoDoc.Json

/-- Whether fields that are missing at the end of a positional record have defaults. -/
inductive Strictness where
  | strict
  | lenient
deriving DecidableEq, Repr

def known (names : List String) (members : List (String × Json)) : List (String × Json) :=
  members.filter fun m => names.contains m.1

def distinctKeys : List (String × Json) → Bool
  | [] => true
  | (k, _) :: rest => !(rest.any fun m => m.1 == k) && distinctKeys rest

/-- The fields of a record with the given field names, as far as the value has them. -/
def record? (mode : Strictness) (names : List String) : Json → Option (List (String × Json))
  | .obj members =>
    let fields := known names members
    if distinctKeys fields then some fields else none
  | .arr items =>
    if items.length = names.length ∨ (mode = .lenient ∧ items.length < names.length) then
      some (names.zip items)
    else none
  | _ => none

def required {α : Type} (read : Json → Option α) (name : String)
    (fields : List (String × Json)) : Option α :=
  (fields.lookup name).bind read

def defaulted {α : Type} (default : α) (read : Json → Option α) (name : String)
    (fields : List (String × Json)) : Option α :=
  match fields.lookup name with
  | none => some default
  | some v => read v

def nullable {α : Type} (read : Json → Option α) : Json → Option (Option α)
  | .null => some none
  | v => (read v).map some

def optional {α : Type} (read : Json → Option α) (name : String)
    (fields : List (String × Json)) : Option (Option α) :=
  defaulted none (nullable read) name fields

def text? : Json → Option String
  | .str s => some s
  | _ => none

def bool? : Json → Option Bool
  | .bool b => some b
  | _ => none

/-- An integer from zero to 2^32 - 1. -/
def word32? : Json → Option UInt32
  | .int n => if 0 ≤ n ∧ n < 4294967296 then some (UInt32.ofNat n.toNat) else none
  | _ => none

/-- An integer from zero to 2^64 - 1. -/
def size? : Json → Option Nat
  | .int n => if 0 ≤ n ∧ n < 18446744073709551616 then some n.toNat else none
  | _ => none

def all? {α : Type} (read : Json → Option α) : List Json → Option (List α)
  | [] => some []
  | v :: rest => do
    let a ← read v
    let as ← all? read rest
    return a :: as

def list? {α : Type} (read : Json → Option α) : Json → Option (List α)
  | .arr items => all? read items
  | _ => none

end AutoDoc.Json
