import AutoDoc.Fault
import AutoDoc.Text.White
import AutoDoc.Word

/-!
# Source text as lines

A source text is the list of its lines, split at newline characters only, so a carriage return
stays part of its line. Indices count lines from zero; every edit clamps its indices to the text
and is therefore defined for all of them.
-/

namespace AutoDoc

/-- A text as its list of lines. A text that was read has at least one line. -/
@[ext]
structure SourceText where
  lines : List String
deriving DecidableEq, Repr

namespace SourceText

/-- The pieces between newline characters; one more than there are newlines. -/
def splitChars : List Char → List (List Char)
  | [] => [[]]
  | c :: cs =>
    if c = '\n' then [] :: splitChars cs
    else match splitChars cs with
      | [] => [[c]]
      | line :: rest => (c :: line) :: rest

def ofText (text : String) : SourceText := ⟨(splitChars text.toList).map String.ofList⟩

def toText (s : SourceText) : String := String.intercalate "\n" s.lines

/-- The number of lines, counting the empty one behind a final newline. -/
def size (s : SourceText) : Nat := s.lines.length

def line? (s : SourceText) (index : Nat) : Option String := s.lines[index]?

def isBlank (s : SourceText) : Bool := s.lines.all Text.isBlank

/-- Put `new` in the place of the lines from `start` up to `stop`. The end is clamped to the text
and the start to the end. -/
def replace (s : SourceText) (start stop : Nat) (new : List String) : SourceText :=
  let stop := min stop s.size
  let start := min start stop
  ⟨s.lines.take start ++ new ++ s.lines.drop stop⟩

/-- Insert lines so that the first of them stands at `index`. -/
def insert (s : SourceText) (index : Nat) (new : List String) : SourceText :=
  s.replace index index new

/-- The index behind the last content line: an empty last line that follows another line is only
the trace of a final newline. -/
def contentEnd (s : SourceText) : Nat :=
  match s.lines.getLast? with
  | some last => if last = "" ∧ 1 < s.size then s.size - 1 else s.size
  | none => s.size

/-- Add lines at the end of the content, keeping a final newline final. -/
def append (s : SourceText) (new : List String) : SourceText := s.insert s.contentEnd new

def foldLine (width : Nat) (line : String) : String :=
  String.ofList (line.toList.flatMap fun c => if c = '\t' then List.replicate width ' ' else [c])

def foldTabs (s : SourceText) (width : Nat) : SourceText := ⟨s.lines.map (foldLine width)⟩

/-- Replace every tab by `width` spaces, which have to fit a text: a width of 63 bits at most. Tabs
too wide are a fault even where there is no tab. -/
def foldTabs? (s : SourceText) (width : Nat) : Except Fault SourceText :=
  if width < Word.limit63 then .ok (s.foldTabs width) else .error .capacityOverflow

end SourceText

end AutoDoc
