import AutoDoc.SourceText
import AutoDoc.Text.TripleQuote

/-!
# Splicing a block into a definition

Within the line range of a definition the signature is the first line whose trimmed form ends
with a colon. Behind it, blank lines and triple-quoted strings are passed over; the block and one
empty line go in front of the first line left. When every line passed over is blank or made of
quote characters only, the block takes their place instead. Without any line left, the block goes
to the end of the content.

A line opens a string if it starts with a triple quote and holds an odd number of it; it closes
one if it ends with a triple quote and holds an odd number of it.
-/

namespace AutoDoc

namespace Splice

/-- A trimmed line that opens a triple-quoted string. -/
def opensString (trimmed : String) : Bool :=
  TripleQuote.all.any fun q => Text.startsWith q.text trimmed && q.isOdd trimmed

/-- A trimmed line that closes a triple-quoted string. -/
def closesString (trimmed : String) : Bool :=
  TripleQuote.all.any fun q => Text.endsWith q.text trimmed && q.isOdd trimmed

def isQuote (c : Char) : Bool := c == '"' || c == '\''

/-- Blank, or nothing but quote characters and the white space around them. -/
def isDisposable (line : String) : Bool := (Text.trim line).toList.all isQuote

/-- A line that may be a signature: its trimmed form ends with a colon. -/
def endsWithColon (line : String) : Bool := (Text.trim line).toList.getLast? == some ':'

/-- The first signature line with an index in `start ≤ i < stop`. -/
def findSignature (s : SourceText) (start stop : Nat) : Option Nat :=
  (((s.lines.take stop).drop start).findIdx? endsWithColon).map (start + ·)

/-- The position, counted from the head, of the first line that is not blank and lies outside a
triple-quoted string; `inString` says whether the head starts inside one. -/
def bodyOffset : Bool → List String → Option Nat
  | _, [] => none
  | inString, line :: rest =>
    let trimmed := Text.trim line
    if !inString && opensString trimmed then (bodyOffset true rest).map (· + 1)
    else if inString && closesString trimmed then (bodyOffset false rest).map (· + 1)
    else if !inString && !trimmed.isEmpty then some 0
    else (bodyOffset inString rest).map (· + 1)

/-- The first line behind `signature` that is not blank and lies outside a string. -/
def findBody (s : SourceText) (signature : Nat) : Option Nat :=
  (bodyOffset false (s.lines.drop (signature + 1))).map (signature + 1 + ·)

/-- What a splice did: the block stands at an index, or at the end of the content, or the range
has no signature and the text is as it was. -/
inductive Outcome where
  | inserted (index : Nat)
  | appended
  | signatureNotFound
deriving DecidableEq, Repr

def Outcome.modified : Outcome → Bool
  | .signatureNotFound => false
  | _ => true

end Splice

open Splice in
/-- Splice `block` into the definition on the lines `startLine` to `endLine`, counted from one. -/
def SourceText.splice (s : SourceText) (startLine endLine : Nat) (block : List String) :
    Splice.Outcome × SourceText :=
  match findSignature s (startLine - 1) endLine with
  | none => (.signatureNotFound, s)
  | some signature =>
    let new := block ++ [""]
    let body := findBody s signature
    let skippedEnd := max (body.getD s.contentEnd) (signature + 1)
    let skipped := (s.lines.take skippedEnd).drop (signature + 1)
    if skipped.all isDisposable then
      let spliced := s.replace (signature + 1) skippedEnd new
      match body with
      | some _ => (.inserted (signature + 1), spliced)
      | none => (.appended, spliced)
    else match body with
      | some index => (.inserted index, s.insert index new)
      | none => (.appended, s.append new)

end AutoDoc
