import AutoDoc.SourceText
import AutoDoc.Text.TripleQuote

/-!
# Scanned lines

A source is scanned line by line for its indentation, for blank and comment lines and for lines
that start inside a multi-line string. A code line is one that is neither blank nor a comment and
starts outside strings.
-/

namespace AutoDoc

structure ScannedLine where
  text : String
  indent : Nat
  blank : Bool
  inString : Bool
deriving DecidableEq, Repr, Inhabited

namespace ScannedLine

/-- Columns of leading space from column `width` on: a tab goes to the next multiple of eight. -/
def indentFrom : Nat → List Char → Nat
  | width, [] => width
  | width, c :: cs =>
    if c = ' ' then indentFrom (width + 1) cs
    else if c = '\t' then indentFrom ((width / 8 + 1) * 8) cs
    else width

def indentOf (line : String) : Nat := indentFrom 0 line.toList

def isBlankOrComment (line : String) : Bool :=
  match Text.trimChars line.toList with
  | [] => true
  | c :: _ => c == '#'

/-- Scan a line that starts with the string `opened` still open. -/
def ofLine (opened : Option TripleQuote) (line : String) : ScannedLine where
  text := line
  indent := indentOf line
  blank := isBlankOrComment line
  inString := opened.isSome

/-- Scan lines; the second result is the string still open at the end. -/
def scanFrom : Option TripleQuote → List String → List ScannedLine × Option TripleQuote
  | opened, [] => ([], opened)
  | opened, line :: rest =>
    let (scanned, final) := scanFrom (TripleQuote.after opened line) rest
    (ofLine opened line :: scanned, final)

def scan (source : SourceText) : List ScannedLine × Option TripleQuote :=
  scanFrom none source.lines

/-- A line of code: neither blank nor a comment, and it starts outside strings. -/
def isCode (l : ScannedLine) : Bool := !l.blank && !l.inString

def trimmed (l : ScannedLine) : List Char := Text.trimChars l.text.toList

/-- The trimmed line ends with a colon, so a block has to follow. -/
def opensBlock (l : ScannedLine) : Bool := l.trimmed.getLast? == some ':'

/-- What the first words of a definition say it defines. -/
inductive Keyword where
  | classDef
  | functionDef
deriving DecidableEq, Repr

def keyword? (l : ScannedLine) : Option Keyword :=
  if "class ".toList.isPrefixOf l.trimmed then some .classDef
  else if "def ".toList.isPrefixOf l.trimmed || "async def ".toList.isPrefixOf l.trimmed then
    some .functionDef
  else none

end ScannedLine

end AutoDoc
