import AutoDoc.Text.Search

/-!
# Triple quotes

The two delimiters of multi-line strings, and how the lines of a text open and close strings when
only the number of delimiters on each line is looked at.
-/

namespace AutoDoc

/-- A delimiter of multi-line strings. -/
inductive TripleQuote where
  | double
  | single
deriving DecidableEq, Repr

namespace TripleQuote

def text : TripleQuote → String
  | .double => "\"\"\""
  | .single => "'''"

/-- Both delimiters, in the order in which a line is examined for them. -/
def all : List TripleQuote := [.double, .single]

def isOdd (q : TripleQuote) (line : String) : Bool := Text.count q.text line % 2 == 1

/-- The string that is open after the occurrences of one delimiter in a line: an odd number of
them closes a string of that delimiter, or opens one when none is open. -/
def toggle (line : String) (opened : Option TripleQuote) (q : TripleQuote) : Option TripleQuote :=
  if q.isOdd line then
    match opened with
    | none => some q
    | some o => if o = q then none else some o
  else opened

/-- The string that is open behind a line. -/
def after (opened : Option TripleQuote) (line : String) : Option TripleQuote :=
  all.foldl (toggle line) opened

end TripleQuote

end AutoDoc
