import AutoDoc.Magnitude.Basic

/-!
# JSON values

Objects keep their members in the order of the text, repetitions included; what a repetition
means is decided by the reader of a record (`Json.record?`) or by `Json.collapse`. Integers are
those that fit a signed or an unsigned 64-bit word; every other number is a floating-point number,
given by its sign and its magnitude.
-/

namespace AutoDoc

/-- A JSON value. `unreadable` is a piece of well-formed text that denotes no value, such as a
string with an unpaired surrogate; a reader may pass over it but not look into it. -/
inductive Json where
  | null
  | bool (b : Bool)
  | int (n : Int)
  | float (negative : Bool) (magnitude : Magnitude)
  | str (s : String)
  | unreadable
  | arr (items : List Json)
  | obj (members : List (String × Json))
deriving Repr, Inhabited

namespace Json

def nat (n : Nat) : Json := .int (Int.ofNat n)

def texts (xs : List String) : Json := .arr (xs.map .str)

def ofOption {α : Type} (f : α → Json) : Option α → Json
  | none => .null
  | some a => f a

/-- Put `v` under `k` in a list of members sorted by key, in the place of an older value. -/
def putSorted (k : String) (v : Json) : List (String × Json) → List (String × Json)
  | [] => [(k, v)]
  | (k', v') :: rest =>
    if k = k' then (k, v) :: rest
    else if k < k' then (k, v) :: (k', v') :: rest
    else (k', v') :: putSorted k v rest

/-- Members sorted by key, where of several values under one key the last remains. -/
def sortMembers (members : List (String × Json)) : List (String × Json) :=
  members.foldl (fun sorted (k, v) => putSorted k v sorted) []

mutual

/-- How deep a value is nested; a value that holds no other has depth one. -/
def depth : Json → Nat
  | .arr items => itemsDepth items + 1
  | .obj members => membersDepth members + 1
  | _ => 1

def itemsDepth : List Json → Nat
  | [] => 0
  | v :: rest => max (depth v) (itemsDepth rest)

def membersDepth : List (String × Json) → Nat
  | [] => 0
  | (_, v) :: rest => max (depth v) (membersDepth rest)

end

mutual

/-- The value with the members of every object sorted by key and, under each key, only the last
value. -/
def collapse : Json → Json
  | .arr items => .arr (collapseItems items)
  | .obj members => .obj (sortMembers (collapseMembers members))
  | v => v

def collapseItems : List Json → List Json
  | [] => []
  | v :: rest => collapse v :: collapseItems rest

def collapseMembers : List (String × Json) → List (String × Json)
  | [] => []
  | (k, v) :: rest => (k, collapse v) :: collapseMembers rest

end

mutual

def readable : Json → Bool
  | .unreadable => false
  | .arr items => itemsReadable items
  | .obj members => membersReadable members
  | _ => true

def itemsReadable : List Json → Bool
  | [] => true
  | v :: rest => readable v && itemsReadable rest

def membersReadable : List (String × Json) → Bool
  | [] => true
  | (_, v) :: rest => readable v && membersReadable rest

end

/-- The first value under a key of an object. -/
def get? (key : String) : Json → Option Json
  | .obj members => members.lookup key
  | _ => none

end Json

end AutoDoc
