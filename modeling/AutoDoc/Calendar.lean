import AutoDoc.Fault
import AutoDoc.Word

/-!
# Calendar

Points in time, counted from the start of 1970 in universal time, and their text: year, month, day
and time of day by the Gregorian calendar, which is continued backwards. Whole seconds fit 64 bits
with sign; far fewer of them have a text.
-/

namespace AutoDoc.Calendar

structure Date where
  year : Int
  month : Nat
  day : Nat
deriving DecidableEq, Repr

/-- The date of a day counted from the first of January 1970. Years are counted from March, so that
a leap day ends a year, in eras of 400 years. -/
def dateOfDay (days : Int) : Date :=
  let shifted := days + 719468
  let era := shifted / 146097
  let dayOfEra := (shifted % 146097).toNat
  let yearOfEra := (dayOfEra - dayOfEra / 1460 + dayOfEra / 36524 - dayOfEra / 146096) / 365
  let dayOfYear := dayOfEra - (365 * yearOfEra + yearOfEra / 4 - yearOfEra / 100)
  let marchMonth := (5 * dayOfYear + 2) / 153
  let day := dayOfYear - (153 * marchMonth + 2) / 5 + 1
  let month := if marchMonth < 10 then marchMonth + 3 else marchMonth - 9
  let year := Int.ofNat yearOfEra + era * 400 + (if month ≤ 2 then 1 else 0)
  { year, month, day }

def padded (width n : Nat) : String :=
  let digits := toString n
  String.ofList (List.replicate (width - digits.length) '0') ++ digits

/-- A year with at least four digits; years outside 0 to 9999 have a sign. -/
def yearText (year : Int) : String :=
  if year < 0 then "-" ++ padded 4 year.natAbs
  else if 9999 < year then "+" ++ padded 4 year.natAbs
  else padded 4 year.natAbs

/-- A point in time, in nanoseconds from the start of 1970. -/
structure Instant where
  nanoseconds : Int
deriving DecidableEq, Repr

def nanosecondsPerSecond : Int := 1000000000

/-- The start of 1970. -/
def epoch : Instant := ⟨0⟩

def Instant.second (t : Instant) : Int := t.nanoseconds / nanosecondsPerSecond

/-- The instant so many nanoseconds after the start of a second. -/
def Instant.after (second : Int) (nanoseconds : Nat) : Except Fault Instant :=
  let t : Instant := ⟨second * nanosecondsPerSecond + Int.ofNat nanoseconds⟩
  if t.second < Int.ofNat Word.limit63 then .ok t else .error .instantOverflow

/-- The first second with a text: the start of the year -262143. -/
def firstSecond : Int := -8334601228800

/-- The last second with a text: the end of the year 262142. -/
def lastSecond : Int := 8210266876799

/-- The text of a second, counted from the start of 1970. -/
def text (seconds : Int) : String :=
  let date := dateOfDay (seconds / 86400)
  let time := (seconds % 86400).toNat
  yearText date.year ++ "-" ++ padded 2 date.month ++ "-" ++ padded 2 date.day ++ "T" ++
    padded 2 (time / 3600) ++ ":" ++ padded 2 (time / 60 % 60) ++ ":" ++ padded 2 (time % 60) ++ "Z"

/-- The text of an instant. An instant before 1970 is taken by its distance, which for the start of
the very first second does not fit 64 bits with sign. -/
def timestamp (t : Instant) : Except Fault String :=
  if t.nanoseconds = -Int.ofNat Word.limit63 * nanosecondsPerSecond then .error .negateOverflow
  else if t.second < firstSecond ∨ lastSecond < t.second then .error .noSuchTime
  else .ok (text t.second)

end AutoDoc.Calendar
