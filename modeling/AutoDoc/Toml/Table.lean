import AutoDoc.Json.Value

/-!
# Tables of TOML

The rules on which keys may be given where. A table that only stands on the way to others is
implicit until a header names it; a table made by dotted keys is closed to headers; a table with a
header, an inline table and any other value are closed to dotted keys. The last element of an array
of tables stands for the array on the way to its parts.
-/

namespace AutoDoc.Toml

/-- What stands under a key. -/
inductive Item where
  | value (v : Json)
  | table (implicit dotted : Bool) (entries : List (String × Item))
  | tables (elements : List (List (String × Item)))

abbrev Entries := List (String × Item)

/-- Put an item under a key, in the place of an older one. -/
def setItem (key : String) (item : Item) : Entries → Entries
  | [] => [(key, item)]
  | (k, old) :: rest => if k = key then (key, item) :: rest else (k, old) :: setItem key item rest

/-- Go down along keys and change the entries there, making the tables on the way. `dotted` says
that the keys are those of a dotted key and not of a header; `f` is also told whether the table at
the end was made by dotted keys. -/
def descend {α : Type} (dotted : Bool) (f : Bool → Entries → Option (Entries × α)) :
    List String → Bool → Entries → Option (Entries × α)
  | [], isDotted, entries => f isDotted entries
  | key :: rest, _, entries =>
    match entries.lookup key with
    | none => do
      let (child, a) ← descend dotted f rest dotted []
      return (setItem key (.table true dotted child) entries, a)
    | some (.value _) => none
    | some (.table implicit isDotted child) =>
      if dotted && !implicit then none
      else do
        let (child, a) ← descend dotted f rest isDotted child
        return (setItem key (.table implicit isDotted child) entries, a)
    | some (.tables elements) =>
      match elements.getLast? with
      | none => none
      | some last => do
        let (child, a) ← descend dotted f rest false last
        return (setItem key (.tables (elements.dropLast ++ [child])) entries, a)

/-- Give a value to a dotted key, whose path is all but its last part. A key is given once. -/
def addValue (path : List String) (key : String) (v : Json) (entries : Entries) : Option Entries :=
  (descend true (fun isDotted es =>
    if isDotted == path.isEmpty || (es.lookup key).isSome then none
    else some (es ++ [(key, .value v)], ())) path false entries).map (·.1)

/-- A document under construction: the finished tables and the table being filled, with the path
of its header. -/
structure Draft where
  root : Entries := []
  path : List String := []
  inArray : Bool := false
  current : Entries := []

/-- Put the table being filled in its place. -/
def Draft.finish (d : Draft) : Option Entries :=
  match d.path.getLast? with
  | none => some d.current
  | some key =>
    (descend false (fun _ es =>
      match es.lookup key, d.inArray with
      | none, true => some (es ++ [(key, .tables [d.current])], ())
      | some (.tables elements), true =>
        some (setItem key (.tables (elements ++ [d.current])) es, ())
      | none, false => some (es ++ [(key, .table false false d.current)], ())
      | some (.table true _ _), false => some (setItem key (.table false false d.current) es, ())
      | _, _ => none) d.path.dropLast false d.root).map (·.1)

/-- Start the table of a header. An implicit table is taken up again. -/
def Draft.startTable (d : Draft) (path : List String) : Option Draft := do
  let root ← d.finish
  let key ← path.getLast?
  let (root, current) ← descend false (fun _ es =>
    match es.lookup key with
    | none => some (es, [])
    | some (.table true false child) => some (es.filter (·.1 != key), child)
    | some _ => none) path.dropLast false root
  return { root, path, inArray := false, current }

/-- Start a further element of the array of tables of a header. -/
def Draft.startElement (d : Draft) (path : List String) : Option Draft := do
  let root ← d.finish
  let key ← path.getLast?
  let (root, ()) ← descend false (fun _ es =>
    match es.lookup key with
    | none => some (es ++ [(key, .tables [])], ())
    | some (.tables _) => some (es, ())
    | some _ => none) path.dropLast false root
  return { root, path, inArray := true, current := [] }

mutual

def Item.toJson : Item → Json
  | .value v => v
  | .table _ _ entries => .obj (entriesJson entries)
  | .tables elements => .arr (elementsJson elements)

def entriesJson : List (String × Item) → List (String × Json)
  | [] => []
  | (key, item) :: rest => (key, item.toJson) :: entriesJson rest

def elementsJson : List (List (String × Item)) → List Json
  | [] => []
  | entries :: rest => .obj (entriesJson entries) :: elementsJson rest

end

end AutoDoc.Toml
