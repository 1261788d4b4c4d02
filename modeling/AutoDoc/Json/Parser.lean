import AutoDoc.Json.Value
import AutoDoc.Word

/-!
# Reading JSON text

The reader accepts exactly one value with white space around it. A container more than 127 deep and
an object with a key that denotes no text are well formed, but unreadable.

Each function returns what it read and the rest of the text; the mutually recursive part runs on a
budget of steps that is twice the length of the text, enough since every second step takes at least
one character.
-/

namespace AutoDoc.Json

def isSpace (c : Char) : Bool := c == ' ' || c == '\n' || c == '\t' || c == '\r'

def skipSpace (cs : List Char) : List Char := cs.dropWhile isSpace

def digitsValue (digits : List Char) : Nat :=
  digits.foldl (fun n c => 10 * n + (c.toNat - 48)) 0

def hexDigit? (c : Char) : Option Nat :=
  if c.isDigit then some (c.toNat - 48)
  else if 'a' ≤ c ∧ c ≤ 'f' then some (c.toNat - 87)
  else if 'A' ≤ c ∧ c ≤ 'F' then some (c.toNat - 55)
  else none

/-- The number written by four hexadecimal digits. -/
def hex4? (a b c d : Char) : Option Nat := do
  let a ← hexDigit? a
  let b ← hexDigit? b
  let c ← hexDigit? c
  let d ← hexDigit? d
  return ((a * 16 + b) * 16 + c) * 16 + d

def shortEscape? : Char → Option Char
  | '"' => some '"'
  | '\\' => some '\\'
  | '/' => some '/'
  | 'b' => some '\x08'
  | 'f' => some '\x0c'
  | 'n' => some '\n'
  | 'r' => some '\r'
  | 't' => some '\t'
  | _ => none

/-- A piece of a string literal: a character, or a code unit given in hexadecimal. -/
inductive Piece where
  | char (c : Char)
  | unit (n : Nat)
deriving Repr

/-- The pieces of a string literal behind its opening quote, and the text behind its closing
quote. Control characters have to be escaped. -/
def pieces : List Char → Option (List Piece × List Char)
  | [] => none
  | '"' :: rest => some ([], rest)
  | '\\' :: 'u' :: a :: b :: c :: d :: rest => do
    let n ← hex4? a b c d
    let (ps, rest) ← pieces rest
    return (.unit n :: ps, rest)
  | '\\' :: e :: rest => do
    let c ← shortEscape? e
    let (ps, rest) ← pieces rest
    return (.char c :: ps, rest)
  | c :: rest =>
    if c.toNat < 32 || c == '\\' then none
    else do
      let (ps, rest) ← pieces rest
      return (.char c :: ps, rest)

/-- Join pieces to text. A high surrogate has to be followed by a low one. -/
def joinPieces : List Piece → Option (List Char)
  | [] => some []
  | .char c :: ps => (joinPieces ps).map (c :: ·)
  | .unit n :: ps =>
    if n < 0xD800 || 0xE000 ≤ n then (joinPieces ps).map (Char.ofNat n :: ·)
    else match ps with
      | .unit m :: ps =>
        if n < 0xDC00 && 0xDC00 ≤ m && m < 0xE000 then
          (joinPieces ps).map (Char.ofNat (0x10000 + (n - 0xD800) * 0x400 + (m - 0xDC00)) :: ·)
        else none
      | _ => none

/-- The fraction of a number: its digits, empty if there is no point. -/
def fraction? : List Char → Option (List Char × List Char)
  | '.' :: rest =>
    let digits := rest.takeWhile Char.isDigit
    if digits.isEmpty then none else some (digits, rest.dropWhile Char.isDigit)
  | cs => some ([], cs)

def exponent? : List Char → Option (Option Int × List Char)
  | e :: rest =>
    if e == 'e' || e == 'E' then
      let (negative, rest) := match rest with
        | '-' :: rest => (true, rest)
        | '+' :: rest => (false, rest)
        | rest => (false, rest)
      let digits := rest.takeWhile Char.isDigit
      let n := Int.ofNat (digitsValue digits)
      if digits.isEmpty then none
      else some (some (if negative then -n else n), rest.dropWhile Char.isDigit)
    else some (none, e :: rest)
  | [] => some (none, [])

/-- Take digits into a significand for as long as it fits 64 bits; the digits that are left over
are returned too. -/
def takeDigits (significand : Nat) : List Char → Nat × List Char
  | [] => (significand, [])
  | c :: cs =>
    let next := 10 * significand + (c.toNat - 48)
    if next < Word.limit64 then takeDigits next cs else (significand, c :: cs)

/-- The floating-point number of digits before and behind the point and an exponent. Digits that
the significand has no room for only count by their place; from the first of them on, those before
the point are passed over, and so are those behind it. A number beyond the finite ones is
unreadable. -/
def floatOf (negative : Bool) (whole frac : List Char) (exponent : Int) : Json :=
  let (significand, wholeLeft) := takeDigits 0 whole
  let (significand, fracLeft) := takeDigits significand frac
  let power := exponent + Int.ofNat wholeLeft.length - Int.ofNat (frac.length - fracLeft.length)
  match Magnitude.ofSteps? significand power with
  | some magnitude => .float negative magnitude
  | none => .unreadable

/-- A number without a point or an exponent. One that fits no 64-bit word, and negative zero, are
floating-point numbers. -/
def wholeNumber (negative : Bool) (digits : List Char) : Json :=
  let n := digitsValue digits
  if negative && n != 0 && n ≤ Word.limit63 then .int (-Int.ofNat n)
  else if !negative && n < Word.limit64 then .int (Int.ofNat n)
  else floatOf negative digits [] 0

def number? (cs : List Char) : Option (Json × List Char) := do
  let (negative, unsigned) := match cs with
    | '-' :: rest => (true, rest)
    | rest => (false, rest)
  let whole := unsigned.takeWhile Char.isDigit
  let rest := unsigned.dropWhile Char.isDigit
  if whole.isEmpty || (whole.head? == some '0' && whole.length != 1) then none
  let (frac, rest) ← fraction? rest
  let (exp, rest) ← exponent? rest
  if frac.isEmpty && exp.isNone then return (wholeNumber negative whole, rest)
  else return (floatOf negative whole frac (exp.getD 0), rest)

def word? : List Char → List Char → Option (List Char)
  | [], cs => some cs
  | _ :: _, [] => none
  | w :: ws, c :: cs => if w = c then word? ws cs else none

/-- A container that was read. It stands for a value only if there was room for it and nothing
about it is unreadable. -/
def container (room : Nat) (v : Option Json) : Json :=
  if room = 0 then .unreadable else v.getD .unreadable

/-- Members with one more in front, if its key can be read. -/
def withMember (key : Option (List Char)) (v : Json) (members : Option (List (String × Json))) :
    Option (List (String × Json)) := do
  return (String.ofList (← key), v) :: (← members)

mutual

/-- A value; `room` more containers may be opened. -/
def value? : Nat → Nat → List Char → Option (Json × List Char)
  | 0, _, _ => none
  | steps + 1, room, cs =>
    match skipSpace cs with
    | '"' :: rest => do
      let (ps, rest) ← pieces rest
      return (match joinPieces ps with
        | some text => .str (String.ofList text)
        | none => .unreadable, rest)
    | '[' :: rest =>
      match skipSpace rest with
      | ']' :: rest => some (container room (some (.arr [])), rest)
      | rest => do
        let (items, rest) ← items? steps (room - 1) rest
        return (container room (some (.arr items)), rest)
    | '\x7b' :: rest =>
      match skipSpace rest with
      | '\x7d' :: rest => some (container room (some (.obj [])), rest)
      | rest => do
        let (members, rest) ← members? steps (room - 1) rest
        return (container room (members.map .obj), rest)
    | 'n' :: rest => (word? ['u', 'l', 'l'] rest).map (.null, ·)
    | 't' :: rest => (word? ['r', 'u', 'e'] rest).map (.bool true, ·)
    | 'f' :: rest => (word? ['a', 'l', 's', 'e'] rest).map (.bool false, ·)
    | rest => number? rest

/-- The items of an array, up to and with its closing bracket. -/
def items? : Nat → Nat → List Char → Option (List Json × List Char)
  | 0, _, _ => none
  | steps + 1, room, cs => do
    let (v, rest) ← value? steps room cs
    match skipSpace rest with
    | ',' :: rest => do
      let (vs, rest) ← items? steps room rest
      return (v :: vs, rest)
    | ']' :: rest => return ([v], rest)
    | _ => none

/-- The members of an object, up to and with its closing brace. -/
def members? : Nat → Nat → List Char → Option (Option (List (String × Json)) × List Char)
  | 0, _, _ => none
  | steps + 1, room, cs =>
    match skipSpace cs with
    | '"' :: rest => do
      let (ps, rest) ← pieces rest
      match skipSpace rest with
      | ':' :: rest => do
        let (v, rest) ← value? steps room rest
        match skipSpace rest with
        | ',' :: rest => do
          let (members, rest) ← members? steps room rest
          return (withMember (joinPieces ps) v members, rest)
        | '\x7d' :: rest => return (withMember (joinPieces ps) v (some []), rest)
        | _ => none
      | _ => none
    | _ => none

end

/-- Read a text that holds one value, which may have unreadable parts. -/
def parse? (text : String) : Option Json := do
  let cs := text.toList
  let (v, rest) ← value? (2 * cs.length + 2) 127 cs
  if (skipSpace rest).isEmpty then some v else none

end AutoDoc.Json
