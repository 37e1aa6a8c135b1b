import GraphQLSyntax.Number.Integer
import GraphQLSyntax.Number.Literal

/-!
# Decimal numbers

A decimal is a signed coefficient times a power of ten. It is read from text more liberally than a
literal: a plus is allowed, and digits may be missing on one side of the point.
-/

set_option autoImplicit false

namespace GraphQLSyntax

structure Decimal where
  negative : Bool
  coefficient : Nat
  exponent : Int
  deriving DecidableEq, Repr

/-- An optional sign and what follows it. -/
def splitSign : List Char → Bool × List Char
  | '-' :: cs => (true, cs)
  | '+' :: cs => (false, cs)
  | cs => (false, cs)

/-- The exponent that ends a decimal. Nothing stands for zero. -/
def readExponent? : List Char → Option Int
  | [] => some 0
  | e :: cs =>
    if e = 'e' ∨ e = 'E' then
      match natural? (splitSign cs).2 with
      | none => none
      | some n => some (if (splitSign cs).1 then -(n : Int) else n)
    else none

namespace Decimal

def ofText? (text : List Char) : Option Decimal :=
  let (negative, cs) := splitSign text
  let whole := cs.takeWhile Char.isDigit
  let afterWhole := cs.dropWhile Char.isDigit
  let pointed := afterWhole.head? = some '.'
  let fraction := if pointed then (afterWhole.drop 1).takeWhile Char.isDigit else []
  let rest := if pointed then (afterWhole.drop 1).dropWhile Char.isDigit else afterWhole
  if whole = [] ∧ fraction = [] then none
  else
    (readExponent? rest).map fun exponent =>
      ⟨negative, digitsValue (whole ++ fraction), exponent - fraction.length⟩

end Decimal

end GraphQLSyntax
