import AutoDoc.Magnitude.Basic

/-!
# Shortest decimals

The decimal with the fewest digits that reads back as a given floating-point magnitude, and among
those the nearest to it. A decimal reads back if it lies between the half-way points to the two
neighbours; the half-way points themselves count if the mantissa is even. For one digit, two and so
on, only the two decimals next to the magnitude have to be tried.
-/

namespace AutoDoc

/-- The number `digits * 10 ^ power`. -/
structure Decimal where
  digits : Nat
  power : Int
deriving DecidableEq, Repr

namespace Magnitude

/-- Compare `a * 2 ^ e` with `b * 10 ^ p` on a common scale. -/
def compareScaled (a : Nat) (e : Int) (b : Nat) (p : Int) : Ordering :=
  compare (scaleDown a e * Nat.pow 10 (-p).toNat) (scaleUp b e * Nat.pow 10 p.toNat)

/-- The half-way point to the neighbour below, in quarters of the last bit. Below a power of two the
neighbours are twice as dense. -/
def lowerQuarters (x : Magnitude) : Nat :=
  if x.mantissa = Nat.pow 2 52 ∧ minExponent < x.exponent then 4 * x.mantissa - 1
  else 4 * x.mantissa - 2

/-- The half-way point to the neighbour above, in quarters of the last bit. -/
def upperQuarters (x : Magnitude) : Nat := 4 * x.mantissa + 2

/-- The decimal rounds to this magnitude. -/
def readsBack (x : Magnitude) (d : Decimal) : Bool :=
  let below := compareScaled x.lowerQuarters (x.exponent - 2) d.digits d.power
  let above := compareScaled x.upperQuarters (x.exponent - 2) d.digits d.power
  if x.mantissa % 2 == 0 then below.isLE && above.isGE else below.isLT && above.isGT

/-- How often `10 ^ p` goes into the magnitude. -/
def quotientAt (x : Magnitude) (p : Int) : Nat :=
  (scaleDown x.mantissa x.exponent * Nat.pow 10 (-p).toNat) /
    (scaleUp 1 x.exponent * Nat.pow 10 p.toNat)

/-- The number of digits before the point, counted below zero for the zeros behind it: the `k` with
`10 ^ (k - 1) ≤ x < 10 ^ k`. The bit length leaves few candidates. -/
def pointOf (x : Magnitude) : Int :=
  let k := (Int.ofNat x.mantissa.log2 + x.exponent) * 30103 / 100000
  if 0 < x.quotientAt (k + 1) then k + 2
  else if 0 < x.quotientAt k then k + 1
  else k

/-- The better of the two decimals with `count` digits next to the magnitude, if one of them reads
back. Of two that are equally near, the one with the even last digit is taken. -/
def candidate? (x : Magnitude) (count : Nat) : Option Decimal :=
  let p := x.pointOf - Int.ofNat count
  let q := x.quotientAt p
  let down : Decimal := ⟨q, p⟩
  let up : Decimal := ⟨q + 1, p⟩
  match x.readsBack down, x.readsBack up with
  | false, false => none
  | true, false => some down
  | false, true => some up
  | true, true =>
    match compareScaled (2 * x.mantissa) x.exponent (2 * q + 1) p with
    | .lt => some down
    | .gt => some up
    | .eq => some (if q % 2 == 0 then down else up)

/-- The decimal without zeros at its end, at most `limit` of them. -/
def dropZeros : Nat → Decimal → Decimal
  | 0, d => d
  | limit + 1, d =>
    if d.digits % 10 == 0 && d.digits != 0 then dropZeros limit ⟨d.digits / 10, d.power + 1⟩ else d

/-- The shortest decimal that reads back. Seventeen digits always suffice. -/
def shortest (x : Magnitude) : Decimal :=
  if x.isZero then ⟨0, 0⟩
  else dropZeros 18 (((List.range 17).findSome? fun n => x.candidate? (n + 1)).getD ⟨0, 0⟩)

end Magnitude

end AutoDoc
