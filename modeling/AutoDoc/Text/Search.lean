/-!
# Searching text

Occurrences of a fixed pattern in a text. Counting goes from left to right and continues behind
each occurrence found, so counted occurrences never overlap. The empty pattern occurs nowhere as
far as counting is concerned.
-/

namespace AutoDoc.Text

def startsWith (mark s : String) : Bool := mark.toList.isPrefixOf s.toList

def endsWith (mark s : String) : Bool := mark.toList.isSuffixOf s.toList

/-- What stands behind `mark` if the characters start with it. -/
def afterMark? : List Char → List Char → Option (List Char)
  | [], cs => some cs
  | _ :: _, [] => none
  | m :: ms, c :: cs => if m == c then afterMark? ms cs else none

/-- What precedes and what follows the first occurrence of `mark`. -/
def cutChars? (mark : List Char) : List Char → Option (List Char × List Char)
  | [] => if mark.isEmpty then some ([], []) else none
  | c :: cs =>
    match afterMark? mark (c :: cs) with
    | some after => some ([], after)
    | none => (cutChars? mark cs).map fun (before, after) => (c :: before, after)

/-- The text before and after the first occurrence of `mark`. -/
def cut? (mark s : String) : Option (String × String) :=
  (cutChars? mark.toList s.toList).map fun (before, after) =>
    (String.ofList before, String.ofList after)

/-- The text before and after the last occurrence of `mark`. -/
def cutLast? (mark s : String) : Option (String × String) :=
  (cutChars? mark.toList.reverse s.toList.reverse).map fun (after, before) =>
    (String.ofList before.reverse, String.ofList after.reverse)

def occursIn (mark s : String) : Bool := (cutChars? mark.toList s.toList).isSome

/-- Occurrences of `mark` counted from left to right, after passing over `skip` characters. -/
def countFrom (mark : List Char) : Nat → List Char → Nat
  | _, [] => 0
  | skip + 1, _ :: cs => countFrom mark skip cs
  | 0, c :: cs =>
    if mark.isPrefixOf (c :: cs) then countFrom mark (mark.length - 1) cs + 1
    else countFrom mark 0 cs

/-- The number of occurrences of `mark` that a search from left to right finds; none for the
empty mark. -/
def count (mark s : String) : Nat :=
  if mark.toList.isEmpty then 0 else countFrom mark.toList 0 s.toList

/-- Replace every occurrence of `mark`, found from left to right, after `skip` characters. -/
def replaceFrom (mark new : List Char) : Nat → List Char → List Char
  | _, [] => []
  | skip + 1, _ :: cs => replaceFrom mark new skip cs
  | 0, c :: cs =>
    if mark.isPrefixOf (c :: cs) then new ++ replaceFrom mark new (mark.length - 1) cs
    else c :: replaceFrom mark new 0 cs

/-- Replace every occurrence of a mark that is not empty. -/
def replace (mark new s : String) : String :=
  if mark.toList.isEmpty then s else String.ofList (replaceFrom mark.toList new.toList 0 s.toList)

end AutoDoc.Text
