import GraphQLSyntax.Number.Binary64

/-!
# The shortest decimal that reads back

Of all decimals that read back as a given number, the ones with the fewest digits are taken, and of
those the nearest to the number. Only the number's two neighbours on each decimal grid need a look: if
any point of the grid reads back, one of them does.
-/

set_option autoImplicit false

namespace GraphQLSyntax

/-- Which of two equally near decimals is taken. -/
inductive DecimalTie where
  | up
  | even
  deriving DecidableEq, Repr

/-- Significant digits, with the power of ten of the first one. -/
structure Significant where
  digits : List Char
  exponent : Int
  deriving DecidableEq, Repr

namespace Significant

/-- A positive number times a power of ten, without zeros at its end. -/
def ofScaled (n : Nat) (exponent : Int) : Significant :=
  let digits := Nat.toDigits 10 n
  ⟨(digits.reverse.dropWhile (· = '0')).reverse, exponent + digits.length - 1⟩

end Significant

namespace Binary64

/-- The power of ten above a positive number of units: the least one that the value lies below. -/
def decimalCeiling (units : Nat) : Int :=
  (Nat.toDigits 10 (units * Nat.pow 10 400 / Nat.pow 2 unitExponent)).length - 400

/-- Twice the distance from the lower grid point to the value, compared with the step of the grid. The
value is `num / den` steps, and the lower point its whole part. -/
def nearerIsUpper (tie : DecimalTie) (num den : Nat) : Bool :=
  let r := num % den
  if 2 * r < den then false
  else if den < 2 * r then true
  else
    match tie with
    | .up => true
    | .even => num / den % 2 = 1

/-- The neighbour on the grid of one power of ten that reads back, the nearer one if both do. -/
def gridPoint? (tie : DecimalTie) (magnitude : Nat) (grid : Int) : Option Nat :=
  let num := units magnitude * Nat.pow 10 (-grid).toNat
  let den := Nat.pow 2 unitExponent * Nat.pow 10 grid.toNat
  let lower := num / den
  let lowerReads := magnitudeOfDecimal lower grid = magnitude
  let upperReads := magnitudeOfDecimal (lower + 1) grid = magnitude
  if lowerReads ∧ upperReads then
    some (if nearerIsUpper tie num den then lower + 1 else lower)
  else if lowerReads then some lower
  else if upperReads then some (lower + 1)
  else none

/-- Tries grids from coarse to fine. Seventeen digits are always enough to read back; the exact value
stands at the end so that the search is total. -/
def searchGrids (tie : DecimalTie) (magnitude : Nat) : Nat → Int → Significant
  | 0, _ => .ofScaled (units magnitude * Nat.pow 5 unitExponent) (-(unitExponent : Int))
  | count + 1, grid =>
    match gridPoint? tie magnitude grid with
    | some n => .ofScaled n grid
    | none => searchGrids tie magnitude count (grid - 1)

def shortest (tie : DecimalTie) (magnitude : Nat) : Significant :=
  searchGrids tie magnitude 17 (decimalCeiling (units magnitude) - 1)

end Binary64

end GraphQLSyntax
