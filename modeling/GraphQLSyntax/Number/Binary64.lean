import GraphQLSyntax.Number.Decimal

/-!
# Binary floating point numbers of 64 bits

A number is a sign and a magnitude, which is the number's other 63 bits read as a natural number.
Larger magnitudes stand for larger values, and the least one that is not finite is infinity. Values are
counted in units of the smallest positive number, so every finite value is a natural number of units
and all arithmetic here is exact.
-/

set_option autoImplicit false

namespace GraphQLSyntax

structure Binary64 where
  negative : Bool
  magnitude : Nat
  deriving DecidableEq, Repr

/-- The quotient of two numbers rounded to the nearest whole one, and a tie to the even one. -/
def roundQuotient (num den : Nat) : Nat :=
  let q := num / den
  let r := num % den
  if 2 * r < den then q
  else if den < 2 * r then q + 1
  else q + q % 2

namespace Binary64

/-- The number of magnitudes from one power of two to the next. -/
def binade : Nat := Nat.pow 2 52

def infinityMagnitude : Nat := 0x7FF * binade

def isFinite (x : Binary64) : Bool :=
  x.magnitude < infinityMagnitude

def bits (x : Binary64) : Nat :=
  (if x.negative then Nat.pow 2 63 else 0) + x.magnitude

/-- Numeric equality of finite numbers: the two zeros are equal. -/
def same (x y : Binary64) : Bool :=
  x == y || (x.magnitude == 0 && y.magnitude == 0)

/-- The smallest positive number is two to the minus this. -/
def unitExponent : Nat := 1074

/-- The value of a finite magnitude in units. Above the first binade each further one
doubles the step between neighbours. -/
def units (magnitude : Nat) : Nat :=
  if magnitude < binade then magnitude
  else (binade + magnitude % binade) * Nat.pow 2 (magnitude / binade - 1)

/-- The magnitude nearest to a quotient, and to the even one of two as near. -/
def nearestMagnitude (num den : Nat) : Nat :=
  let scaled := num * Nat.pow 2 unitExponent
  let shift := (scaled / den).log2 - 52
  min (shift * binade + roundQuotient scaled (den * Nat.pow 2 shift)) infinityMagnitude

/-- The magnitude nearest to a decimal. A coefficient of `n` digits and an exponent whose sum is above
310 lies beyond the largest finite number, and one below -330 rounds to zero. -/
def magnitudeOfDecimal (coefficient : Nat) (exponent : Int) : Nat :=
  if coefficient = 0 then 0
  else
    let size := ((Nat.toDigits 10 coefficient).length : Int) + exponent
    if 310 < size then infinityMagnitude
    else if size < -330 then 0
    else nearestMagnitude (coefficient * Nat.pow 10 exponent.toNat) (Nat.pow 10 (-exponent).toNat)

def ofDecimal (d : Decimal) : Binary64 :=
  ⟨d.negative, magnitudeOfDecimal d.coefficient d.exponent⟩

def ofText? (text : List Char) : Option Binary64 :=
  (Decimal.ofText? text).map ofDecimal

end Binary64

end GraphQLSyntax
