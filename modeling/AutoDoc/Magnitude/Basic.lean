/-!
# Floating-point magnitudes

The finite floating-point numbers of 64 bits, without their sign: a mantissa of at most 53 bits
times a power of two. Every operation takes the exact result and rounds it once, to the nearest
magnitude and, half-way between two, to the one with the even mantissa. A result that rounds beyond
the greatest magnitude has none. Nothing here uses machine floats, so results can be computed in
proofs.
-/

namespace AutoDoc

/-- The number `mantissa * 2 ^ exponent`. The mantissa has 53 bits unless the exponent is the
least. -/
structure Magnitude where
  mantissa : Nat
  exponent : Int
deriving DecidableEq, Repr

namespace Magnitude

def minExponent : Int := -1074

def maxExponent : Int := 971

def zero : Magnitude := ⟨0, minExponent⟩

def isZero (x : Magnitude) : Bool := x.mantissa == 0

/-- The whole number nearest to a quotient; of two that are equally near, the even one. -/
def roundDiv (num den : Nat) : Nat :=
  let q := num / den
  let r := num % den
  if den < 2 * r || (den == 2 * r && q % 2 == 1) then q + 1 else q

/-- `num` in units of `2 ^ e`, as far as that makes it greater. -/
def scaleUp (num : Nat) (e : Int) : Nat := num * Nat.pow 2 (-e).toNat

/-- `den` in units of `2 ^ -e`, as far as that makes it greater. -/
def scaleDown (den : Nat) (e : Int) : Nat := den * Nat.pow 2 e.toNat

/-- The exponent at which a positive quotient has a whole part of 53 bits. The bit lengths of its
two numbers leave a choice of two. -/
def exponentOf (num den : Nat) : Int :=
  let e := Int.ofNat num.log2 - Int.ofNat den.log2 - 53
  if Nat.pow 2 53 * scaleDown den e ≤ scaleUp num e then e + 1 else e

/-- The magnitude nearest to a quotient, unless that is beyond the greatest one. -/
def ofRatio? (num den : Nat) : Option Magnitude :=
  if num = 0 then some zero
  else
    let e := max (exponentOf num den) minExponent
    let m := roundDiv (scaleUp num e) (scaleDown den e)
    let x : Magnitude := if m = Nat.pow 2 53 then ⟨Nat.pow 2 52, e + 1⟩ else ⟨m, e⟩
    if maxExponent < x.exponent then none else some x

def ofNat? (n : Nat) : Option Magnitude := ofRatio? n 1

/-- The product, rounded. -/
def mul? (x y : Magnitude) : Option Magnitude :=
  let e := x.exponent + y.exponent
  ofRatio? (scaleDown (x.mantissa * y.mantissa) e) (scaleUp 1 e)

/-- The quotient, rounded. -/
def div? (x y : Magnitude) : Option Magnitude :=
  let e := x.exponent - y.exponent
  ofRatio? (scaleDown x.mantissa e) (scaleUp y.mantissa e)

/-- The magnitude nearest to `digits * 10 ^ power`. Powers that leave no doubt are not computed. -/
def ofDecimal? (digits : Nat) (power : Int) : Option Magnitude :=
  let size := Int.ofNat (Nat.toDigits 10 digits).length + power
  if digits = 0 ∨ size < -400 then some zero
  else if 400 < size then none
  else ofRatio? (digits * Nat.pow 10 power.toNat) (Nat.pow 10 (-power).toNat)

/-- The greatest power of ten that is not beyond the greatest magnitude. -/
def maxTenPower : Nat := 308

def tenPower? (k : Nat) : Option Magnitude := ofNat? (Nat.pow 10 k)

/-- Divide `steps` times, rounding each time, unless zero is reached before. -/
def divRepeatedly? (divisor : Magnitude) : Nat → Magnitude → Option Magnitude
  | 0, x => some x
  | steps + 1, x =>
    if x.isZero then some x else (x.div? divisor).bind (divRepeatedly? divisor steps)

/-- Divide by `10 ^ k` in steps that are each rounded: divisions by the greatest power of ten for
as long as more than that is left, then one by what is left. -/
def divTenPower? (x : Magnitude) (k : Nat) : Option Magnitude := do
  let steps := (k - 1) / maxTenPower
  let y ← divRepeatedly? (← tenPower? maxTenPower) steps x
  y.div? (← tenPower? (k - steps * maxTenPower))

/-- Multiply by `10 ^ k`, rounding the power of ten and then the product. -/
def mulTenPower? (x : Magnitude) (k : Nat) : Option Magnitude :=
  if k ≤ maxTenPower then (tenPower? k).bind x.mul?
  else if x.isZero then some x
  else none

/-- A significand scaled by a power of ten in rounded steps. The result may differ in its last bits
from the magnitude nearest to the exact product. -/
def ofSteps? (significand : Nat) (power : Int) : Option Magnitude := do
  let x ← ofNat? significand
  if 0 ≤ power then x.mulTenPower? power.toNat else x.divTenPower? (-power).toNat

end Magnitude

end AutoDoc
