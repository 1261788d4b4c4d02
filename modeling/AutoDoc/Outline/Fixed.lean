import AutoDoc.Outline.Parser
import AutoDoc.Outline.Reader
import AutoDoc.Text.Search

/-!
# Simple parsers

Parsers that need no other program: the reader by indentation, a parser with one fixed outline, and
parsers that reply by a list.
-/

namespace AutoDoc.Parser

def indentation : Parser := fun _ source => .ok (.ok (Outline.read source))

/-- A fixed outline for every source, except that a source with the marker is invalid. -/
def fixed (outline : Outline) (marker : Option String) : Parser := fun _ source =>
  if marker.any fun m => Text.occursIn m source then .ok (.ok .invalid) else .ok (.ok outline)

def always (reply : ParseReply) : Parser := fun _ _ => reply

/-- The parsers of a list take calls in turn; the last one takes all that follow. -/
def inTurn : List Parser → Parser
  | [] => indentation
  | [p] => p
  | p :: rest => fun call source =>
    match call with
    | 0 => p 0 source
    | call + 1 => inTurn rest call source

end AutoDoc.Parser
