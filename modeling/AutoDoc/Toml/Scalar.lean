import AutoDoc.Json.Parser
import AutoDoc.Word

/-!
# Scalars of TOML

White space, comments, strings, numbers and dates of TOML 1.0. Every reader takes the characters
from its position on and returns what it read with the rest, or nothing where the text is not
well formed. Values are given in the shape of JSON; a date is an object with one private key.
-/

namespace AutoDoc.Toml

def isBlankChar (c : Char) : Bool := c == ' ' || c == '\t'

def skipBlank (cs : List Char) : List Char := cs.dropWhile isBlankChar

def isWide (c : Char) : Bool := 0x80 ≤ c.toNat

/-- A character that may stand in a comment: no control character but the tab. -/
def isPlain (c : Char) : Bool := c == '\t' || (0x20 ≤ c.toNat && c.toNat ≤ 0x7E) || isWide c

def newline? : List Char → Option (List Char)
  | '\n' :: rest => some rest
  | '\r' :: '\n' :: rest => some rest
  | _ => none

def skipComment : List Char → List Char
  | '#' :: rest => rest.dropWhile isPlain
  | cs => cs

/-- The rest of a line that may hold only blanks and a comment, with its end. -/
def lineEnd? (cs : List Char) : Option (List Char) :=
  match skipComment (skipBlank cs) with
  | [] => some []
  | rest => newline? rest

/-- Pass over blanks, comments and line ends, at most `limit` times. -/
def skipLines : Nat → List Char → List Char
  | 0, cs => cs
  | limit + 1, cs =>
    let rest := skipComment (skipBlank cs)
    match newline? rest with
    | some rest => skipLines limit rest
    | none => rest

def hexValue? (digits : List Char) : Option Nat :=
  digits.foldlM (fun n c => (Json.hexDigit? c).map (16 * n + ·)) 0

/-- The character with a code point, which must not be a surrogate. -/
def scalarOf? (n : Nat) : Option Char :=
  if n < 0xD800 || (0xE000 ≤ n && n < 0x110000) then some (Char.ofNat n) else none

/-- The character that an escape stands for, behind its backslash. -/
def escape? : List Char → Option (Char × List Char)
  | 'b' :: rest => some ('\x08', rest)
  | 't' :: rest => some ('\t', rest)
  | 'n' :: rest => some ('\n', rest)
  | 'f' :: rest => some ('\x0c', rest)
  | 'r' :: rest => some ('\r', rest)
  | '"' :: rest => some ('"', rest)
  | '\\' :: rest => some ('\\', rest)
  | 'u' :: rest =>
    if rest.length < 4 then none
    else ((hexValue? (rest.take 4)).bind scalarOf?).map (·, rest.drop 4)
  | 'U' :: rest =>
    if rest.length < 8 then none
    else ((hexValue? (rest.take 8)).bind scalarOf?).map (·, rest.drop 8)
  | _ => none

def isBasic (c : Char) : Bool := isPlain c && c != '"' && c != '\\'

def isLiteral (c : Char) : Bool := isPlain c && c != '\''

/-- A basic string behind its opening quote, in at most `limit` steps. -/
def basic? : Nat → List Char → Option (List Char × List Char)
  | 0, _ => none
  | _ + 1, '"' :: rest => some ([], rest)
  | limit + 1, '\\' :: rest => do
    let (c, rest) ← escape? rest
    let (cs, rest) ← basic? limit rest
    return (c :: cs, rest)
  | limit + 1, c :: rest =>
    if isBasic c then do
      let (cs, rest) ← basic? limit rest
      return (c :: cs, rest)
    else none
  | _, [] => none

/-- A literal string behind its opening quote. -/
def literal? (cs : List Char) : Option (List Char × List Char) :=
  match cs.dropWhile isLiteral with
  | '\'' :: rest => some (cs.takeWhile isLiteral, rest)
  | _ => none

/-- The quotes at the head of a multi-line string: up to two are content, three to five close the
string after up to two of content. -/
def quotesClose? (quote : Char) (cs : List Char) : Option (List Char × Option (List Char)) :=
  let run := cs.takeWhile (· == quote)
  if run.length < 3 then some (run, none)
  else if run.length ≤ 5 then some (run.drop 3, some (cs.dropWhile (· == quote)))
  else none

/-- Pass over blanks and line ends, at most `limit` times. -/
def skipBreaks : Nat → List Char → List Char
  | 0, cs => cs
  | limit + 1, cs =>
    match newline? (skipBlank cs) with
    | some rest => skipBreaks limit rest
    | none => skipBlank cs

/-- A multi-line basic string behind its opening quotes and first line end. -/
def multiBasic? : Nat → List Char → Option (List Char × List Char)
  | 0, _ => none
  | limit + 1, cs =>
    match cs with
    | [] => none
    | '"' :: _ =>
      match quotesClose? '"' cs with
      | none => none
      | some (content, some rest) => some (content, rest)
      | some (content, none) => do
        let (more, rest) ← multiBasic? limit (cs.drop content.length)
        return (content ++ more, rest)
    | '\\' :: rest =>
      match newline? (skipBlank rest) with
      | some rest => multiBasic? limit (skipBreaks (rest.length + 1) rest)
      | none => do
        let (c, rest) ← escape? rest
        let (more, rest) ← multiBasic? limit rest
        return (c :: more, rest)
    | c :: rest =>
      match newline? cs with
      | some rest => do
        let (more, rest) ← multiBasic? limit rest
        return ('\n' :: more, rest)
      | none =>
        if isBasic c then do
          let (more, rest) ← multiBasic? limit rest
          return (c :: more, rest)
        else none

/-- A multi-line literal string behind its opening quotes and first line end. -/
def multiLiteral? : Nat → List Char → Option (List Char × List Char)
  | 0, _ => none
  | limit + 1, cs =>
    match cs with
    | [] => none
    | '\'' :: _ =>
      match quotesClose? '\'' cs with
      | none => none
      | some (content, some rest) => some (content, rest)
      | some (content, none) => do
        let (more, rest) ← multiLiteral? limit (cs.drop content.length)
        return (content ++ more, rest)
    | c :: rest =>
      match newline? cs with
      | some rest => do
        let (more, rest) ← multiLiteral? limit rest
        return ('\n' :: more, rest)
      | none =>
        if isLiteral c then do
          let (more, rest) ← multiLiteral? limit rest
          return (c :: more, rest)
        else none

/-- A line end right behind opening quotes is no content. -/
def dropNewline (cs : List Char) : List Char := (newline? cs).getD cs

def string? (cs : List Char) : Option (String × List Char) :=
  let result := match cs with
    | '"' :: '"' :: '"' :: rest => multiBasic? (rest.length + 1) (dropNewline rest)
    | '"' :: rest => basic? (rest.length + 1) rest
    | '\'' :: '\'' :: '\'' :: rest => multiLiteral? (rest.length + 1) (dropNewline rest)
    | '\'' :: rest => literal? rest
    | _ => none
  result.map fun (text, rest) => (String.ofList text, rest)

/-- Digits with single underscores between them; the underscores are dropped. -/
def digits? (isDigit : Char → Bool) : List Char → Option (List Char × List Char)
  | [] => none
  | d :: rest => if isDigit d then (tailDigits rest).map fun (ds, rest) => (d :: ds, rest) else none
where
  tailDigits : List Char → Option (List Char × List Char)
    | [] => some ([], [])
    | '_' :: d :: rest =>
      if isDigit d then (tailDigits rest).map fun (ds, rest) => (d :: ds, rest) else none
    | d :: rest =>
      if isDigit d then (tailDigits rest).map fun (ds, rest) => (d :: ds, rest)
      else if d == '_' then none
      else some ([], d :: rest)

def sign : List Char → Bool × List Char
  | '-' :: rest => (true, rest)
  | '+' :: rest => (false, rest)
  | cs => (false, cs)

/-- The digits of a decimal integer: a zero stands alone. -/
def decimalDigits? : List Char → Option (List Char × List Char)
  | '0' :: rest => some (['0'], rest)
  | cs => digits? Char.isDigit cs

def word? (negative : Bool) (n : Nat) : Option Json :=
  if negative then (if n ≤ Word.limit63 then some (.int (-Int.ofNat n)) else none)
  else if n < Word.limit63 then some (.int (Int.ofNat n))
  else none

def baseValue (base : Nat) (digits : List Char) : Nat :=
  digits.foldl (fun n c => base * n + (Json.hexDigit? c).getD 0) 0

/-- An integer: decimal with a sign, or without one in base sixteen, eight or two. -/
def integer? (cs : List Char) : Option (Json × List Char) :=
  let based (base : Nat) (rest : List Char) : Option (Json × List Char) := do
    let (ds, rest) ← digits? (fun c => (Json.hexDigit? c).any (· < base)) rest
    return (← word? false (baseValue base ds), rest)
  match cs with
  | '0' :: 'x' :: rest => based 16 rest
  | '0' :: 'o' :: rest => based 8 rest
  | '0' :: 'b' :: rest => based 2 rest
  | cs => do
    let (negative, rest) := sign cs
    let (ds, rest) ← decimalDigits? rest
    return (← word? negative (baseValue 10 ds), rest)

/-- The fraction of a float. -/
def fraction? : List Char → Option (List Char × List Char)
  | '.' :: rest => digits? Char.isDigit rest
  | _ => none

def exponent? : List Char → Option (Int × List Char)
  | e :: rest =>
    if e == 'e' || e == 'E' then do
      let (negative, rest) := sign rest
      let (ds, rest) ← digits? Char.isDigit rest
      let n := Int.ofNat (baseValue 10 ds)
      return (if negative then -n else n, rest)
    else none
  | [] => none

/-- A float with a fraction, an exponent or both. A positive one beyond the finite values is
refused; what is no finite value otherwise cannot be read further. -/
def float? (cs : List Char) : Option (Json × List Char) := do
  let (negative, rest) := sign cs
  match rest with
  | 'i' :: 'n' :: 'f' :: rest => return (.unreadable, rest)
  | 'n' :: 'a' :: 'n' :: rest => return (.unreadable, rest)
  | _ =>
    let (whole, rest) ← decimalDigits? rest
    let (frac, afterFrac) := match fraction? rest with
      | some (ds, rest) => (some ds, rest)
      | none => (none, rest)
    let (exp, afterExp) := match exponent? afterFrac with
      | some (e, rest) => (some e, rest)
      | none => (none, afterFrac)
    if frac.isNone && exp.isNone then none
    let power := exp.getD 0 - Int.ofNat (frac.getD []).length
    match Magnitude.ofDecimal? (baseValue 10 (whole ++ frac.getD [])) power with
    | some magnitude => return (.float negative magnitude, afterExp)
    | none => if negative then return (.unreadable, afterExp) else none

/-- A number of exactly `width` digits within bounds. -/
def field? (width low high : Nat) (cs : List Char) : Option (Nat × List Char) :=
  let ds := cs.take width
  let n := baseValue 10 ds
  if ds.length = width ∧ ds.all Char.isDigit ∧ low ≤ n ∧ n ≤ high then some (n, cs.drop width)
  else none

def mark? (mark : Char) : List Char → Option (List Char)
  | c :: rest => if c = mark then some rest else none
  | [] => none

def monthLength (year month : Nat) : Nat :=
  if month == 2 then
    if year % 4 == 0 && (year % 100 != 0 || year % 400 == 0) then 29 else 28
  else if [4, 6, 9, 11].contains month then 30
  else 31

def date? (cs : List Char) : Option (List Char) := do
  let (year, cs) ← field? 4 0 9999 cs
  let cs ← mark? '-' cs
  let (month, cs) ← field? 2 1 12 cs
  let cs ← mark? '-' cs
  let (_, cs) ← field? 2 1 (monthLength year month) cs
  return cs

/-- A time of day, with a fraction of the second if there is one. -/
def time? (cs : List Char) : Option (List Char) := do
  let (_, cs) ← field? 2 0 23 cs
  let cs ← mark? ':' cs
  let (_, cs) ← field? 2 0 59 cs
  let cs ← mark? ':' cs
  let (_, cs) ← field? 2 0 60 cs
  match cs with
  | '.' :: d :: rest => if d.isDigit then some (rest.dropWhile Char.isDigit) else some cs
  | _ => some cs

def offset? : List Char → Option (List Char)
  | c :: rest =>
    if c == 'Z' || c == 'z' then some rest
    else if c == '+' || c == '-' then do
      let (_, cs) ← field? 2 0 23 rest
      let cs ← mark? ':' cs
      let (_, cs) ← field? 2 0 59 cs
      return cs
    else some (c :: rest)
  | [] => some []

/-- A date, a time, or both with an optional offset. -/
def dateTime? (cs : List Char) : Option (Json × List Char) := do
  let rest ← match date? cs with
    | none => time? cs
    | some rest =>
      match rest with
      | d :: afterMark =>
        if d == 'T' || d == 't' || d == ' ' then
          match time? afterMark with
          | some rest => offset? rest
          | none => some rest
        else some rest
      | [] => some rest
  let text := String.ofList (cs.take (cs.length - rest.length))
  return (.obj [("$__toml_private_datetime", .str text)], rest)

def number? (cs : List Char) : Option (Json × List Char) :=
  (dateTime? cs).orElse fun _ => (float? cs).orElse fun _ => integer? cs

end AutoDoc.Toml
