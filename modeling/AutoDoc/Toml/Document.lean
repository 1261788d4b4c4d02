import AutoDoc.Toml.Scalar
import AutoDoc.Toml.Table

/-!
# Documents of TOML

A document is read line by line into a draft of its tables. Arrays and inline tables may be nested
79 deep and a key may have as many parts. The mutually recursive readers run on a budget of steps
that is twice the length of the text.
-/

namespace AutoDoc.Toml

def isBareKey (c : Char) : Bool := c.isAlphanum || c == '_' || c == '-'

/-- One part of a key: bare, or a string on one line. -/
def simpleKey? : List Char → Option (String × List Char)
  | '"' :: rest =>
    (basic? (rest.length + 1) rest).map fun (text, rest) => (String.ofList text, rest)
  | '\'' :: rest => (literal? rest).map fun (text, rest) => (String.ofList text, rest)
  | cs =>
    let bare := cs.takeWhile isBareKey
    if bare.isEmpty then none else some (String.ofList bare, cs.dropWhile isBareKey)

/-- The parts of a key, with dots between and blanks around; at most `limit` of them. -/
def key? : Nat → List Char → Option (List String × List Char)
  | 0, _ => none
  | limit + 1, cs => do
    let (part, rest) ← simpleKey? (skipBlank cs)
    match skipBlank rest with
    | '.' :: rest => do
      let (parts, rest) ← key? limit rest
      return (part :: parts, rest)
    | rest => return ([part], rest)

def keyLimit : Nat := 79

mutual

/-- A value; `room` more containers may be opened. -/
def value? : Nat → Nat → List Char → Option (Json × List Char)
  | 0, _, _ => none
  | steps + 1, room, cs =>
    match cs with
    | '[' :: rest =>
      if room = 0 then none
      else (items? steps (room - 1) rest).map fun (items, rest) => (.arr items, rest)
    | '\x7b' :: rest =>
      if room = 0 then none
      else
        match skipBlank rest with
        | '\x7d' :: rest => some (.obj [], rest)
        | rest => (pairs? steps (room - 1) [] rest).map fun (es, rest) =>
          (.obj (entriesJson es), rest)
    | 't' :: rest => (Json.word? ['r', 'u', 'e'] rest).map (.bool true, ·)
    | 'f' :: rest => (Json.word? ['a', 'l', 's', 'e'] rest).map (.bool false, ·)
    | '"' :: _ => (string? cs).map fun (s, rest) => (.str s, rest)
    | '\'' :: _ => (string? cs).map fun (s, rest) => (.str s, rest)
    | _ => number? cs

/-- The items of an array, up to and with its closing bracket; a comma may follow the last. -/
def items? : Nat → Nat → List Char → Option (List Json × List Char)
  | 0, _, _ => none
  | steps + 1, room, cs =>
    match skipLines (cs.length + 1) cs with
    | ']' :: rest => some ([], rest)
    | rest => do
      let (v, rest) ← value? steps room rest
      match skipLines (rest.length + 1) rest with
      | ',' :: rest => do
        let (vs, rest) ← items? steps room rest
        return (v :: vs, rest)
      | ']' :: rest => return ([v], rest)
      | _ => none

/-- The pairs of an inline table on one line, up to and with its closing brace. -/
def pairs? : Nat → Nat → Entries → List Char → Option (Entries × List Char)
  | 0, _, _, _ => none
  | steps + 1, room, entries, cs => do
    let (parts, rest) ← key? keyLimit cs
    let key ← parts.getLast?
    let rest ← mark? '=' rest
    let (v, rest) ← value? steps room (skipBlank rest)
    let entries ← addValue parts.dropLast key v entries
    match skipBlank rest with
    | ',' :: rest => pairs? steps room entries rest
    | '\x7d' :: rest => return (entries, rest)
    | _ => none

end

/-- A header: whether it opens an element of an array of tables, its key and the rest. -/
def header? : List Char → Option (Bool × List String × List Char)
  | '[' :: '[' :: rest => do
    let (parts, rest) ← key? keyLimit rest
    match rest with
    | ']' :: ']' :: rest => return (true, parts, rest)
    | _ => none
  | '[' :: rest => do
    let (parts, rest) ← key? keyLimit rest
    match rest with
    | ']' :: rest => return (false, parts, rest)
    | _ => none
  | _ => none

/-- A line that is not empty: a header, or a key with its value. -/
def line? (d : Draft) (cs : List Char) : Option (Draft × List Char) :=
  match cs with
  | '[' :: _ => do
    let (inArray, path, rest) ← header? cs
    let d ← if inArray then d.startElement path else d.startTable path
    return (d, ← lineEnd? rest)
  | _ => do
    let (parts, rest) ← key? keyLimit cs
    let key ← parts.getLast?
    let rest ← mark? '=' rest
    let (v, rest) ← value? (2 * rest.length + 2) 79 (skipBlank rest)
    let current ← addValue parts.dropLast key v d.current
    return ({ d with current }, ← lineEnd? rest)

def lines? : Nat → Draft → List Char → Option Draft
  | 0, _, _ => none
  | limit + 1, d, cs =>
    match skipLines (cs.length + 1) cs with
    | [] => some d
    | rest => do
      let (d, rest) ← line? d rest
      lines? limit d rest

/-- Read a document as an object. A byte-order mark at its start is passed over. -/
def parse? (text : String) : Option Json := do
  let cs := match text.toList with
    | [] => []
    | c :: rest => if c.toNat = 0xFEFF then rest else c :: rest
  let d ← lines? (cs.length + 1) {} cs
  return .obj (entriesJson (← d.finish))

end AutoDoc.Toml
