/-!
# White space

White space is the Unicode property White_Space: besides the ASCII blanks it holds NEL, the
no-break space, the line and paragraph separators and the ideographic space, but neither the
zero-width space nor the byte-order mark. Trimming, blankness and words are defined from it over
lists of characters; the functions on `String` only wrap these.
-/

namespace AutoDoc.Text

def isWhite (c : Char) : Bool :=
  let n := c.toNat
  (9 ≤ n && n ≤ 13) || n == 32 || n == 0x85 || n == 0xA0 || n == 0x1680 ||
    (0x2000 ≤ n && n ≤ 0x200A) || n == 0x2028 || n == 0x2029 || n == 0x202F || n == 0x205F ||
    n == 0x3000

def dropRightWhile (p : Char → Bool) (cs : List Char) : List Char :=
  (cs.reverse.dropWhile p).reverse

def trimChars (cs : List Char) : List Char :=
  dropRightWhile isWhite (cs.dropWhile isWhite)

def trim (s : String) : String := String.ofList (trimChars s.toList)

def isBlank (s : String) : Bool := s.toList.all isWhite

/-- Put characters in front of the first piece. -/
def extendFirst (cs : List Char) : List (List Char) → List (List Char)
  | [] => [cs]
  | piece :: rest => (cs ++ piece) :: rest

/-- The pieces between white characters, empty ones included. -/
def splitWhite : List Char → List (List Char)
  | [] => [[]]
  | c :: cs => if isWhite c then [] :: splitWhite cs else extendFirst [c] (splitWhite cs)

def words (s : String) : List String :=
  ((splitWhite s.toList).filter (!·.isEmpty)).map String.ofList

end AutoDoc.Text
