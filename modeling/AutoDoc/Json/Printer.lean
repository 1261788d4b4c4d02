import AutoDoc.Json.Value
import AutoDoc.Magnitude.Shortest

/-!
# Writing JSON text

Two layouts: compact, without any white space, and pretty, with one item or member a line and two
spaces for each level. Only quotes, backslashes and control characters are escaped. A
floating-point number is written with the fewest digits that read back.
-/

namespace AutoDoc.Json

def hexDigit (n : Nat) : Char := if n < 10 then Char.ofNat (48 + n) else Char.ofNat (87 + n)

/-- How a character is written inside a string literal. -/
def escapeChar (c : Char) : List Char :=
  if c == '"' then ['\\', '"']
  else if c == '\\' then ['\\', '\\']
  else if c == '\n' then ['\\', 'n']
  else if c == '\r' then ['\\', 'r']
  else if c == '\t' then ['\\', 't']
  else if c == '\x08' then ['\\', 'b']
  else if c == '\x0c' then ['\\', 'f']
  else if c.toNat < 32 then
    ['\\', 'u', '0', '0', hexDigit (c.toNat / 16), hexDigit (c.toNat % 16)]
  else [c]

def quote (s : String) : String :=
  String.ofList ('"' :: s.toList.flatMap escapeChar ++ ['"'])

def zeros (count : Int) : List Char := List.replicate count.toNat '0'

/-- The digits of a decimal with its point. Numbers from `10 ^ -5` up to `10 ^ 16` are written out,
with at least one digit behind the point; all others have one digit before the point and an
exponent with a sign. -/
def decimalText (d : Decimal) : List Char :=
  let digits := Nat.toDigits 10 d.digits
  let point := Int.ofNat digits.length + d.power
  if 0 ≤ d.power ∧ point ≤ 16 then digits ++ zeros d.power ++ ['.', '0']
  else if 0 < point ∧ point ≤ 16 then
    digits.take point.toNat ++ '.' :: digits.drop point.toNat
  else if -5 < point ∧ point ≤ 0 then '0' :: '.' :: zeros (-point) ++ digits
  else
    let tail := digits.drop 1
    let exponent := point - 1
    digits.take 1 ++ (if tail.isEmpty then [] else '.' :: tail) ++
      'e' :: (if exponent < 0 then '-' else '+') :: Nat.toDigits 10 exponent.natAbs

def floatText (negative : Bool) (magnitude : Magnitude) : String :=
  String.ofList ((if negative then ['-'] else []) ++ decimalText magnitude.shortest)

/-- A value that holds no other as text; containers are left to the layouts. -/
def scalar : Json → String
  | .bool true => "true"
  | .bool false => "false"
  | .int n => toString n
  | .float negative magnitude => floatText negative magnitude
  | .str s => quote s
  | _ => "null"

mutual

def compact : Json → String
  | .arr items => "[" ++ String.intercalate "," (compactItems items) ++ "]"
  | .obj members => "\x7b" ++ String.intercalate "," (compactMembers members) ++ "\x7d"
  | v => scalar v

def compactItems : List Json → List String
  | [] => []
  | v :: rest => compact v :: compactItems rest

def compactMembers : List (String × Json) → List String
  | [] => []
  | (k, v) :: rest => (quote k ++ ":" ++ compact v) :: compactMembers rest

end

/-- Lines between brackets, one level deeper than the brackets. -/
def bracket (level : Nat) (opening closing : String) : List String → String
  | [] => opening ++ closing
  | entries =>
    let indent := "\n" ++ String.ofList (List.replicate (2 * (level + 1)) ' ')
    let outdent := "\n" ++ String.ofList (List.replicate (2 * level) ' ')
    opening ++ indent ++ String.intercalate ("," ++ indent) entries ++ outdent ++ closing

mutual

/-- The pretty layout of a value that stands `level` deep. -/
def prettyAt : Nat → Json → String
  | level, .arr items => bracket level "[" "]" (prettyItems (level + 1) items)
  | level, .obj members => bracket level "\x7b" "\x7d" (prettyMembers (level + 1) members)
  | _, v => scalar v

def prettyItems : Nat → List Json → List String
  | _, [] => []
  | level, v :: rest => prettyAt level v :: prettyItems level rest

def prettyMembers : Nat → List (String × Json) → List String
  | _, [] => []
  | level, (k, v) :: rest => (quote k ++ ": " ++ prettyAt level v) :: prettyMembers level rest

end

def pretty (v : Json) : String := prettyAt 0 v

end AutoDoc.Json
