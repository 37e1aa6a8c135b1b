import GraphQLSyntax.Number.Shortest

/-!
# Written forms of floating point numbers

A form says which numbers are written with all their digits around the point, how an exponent is
written in the others, and which of two equally short and near decimals is taken.
-/

set_option autoImplicit false

namespace GraphQLSyntax

structure FloatForm where
  /-- The least exponent of the first digit that is written without an exponent part. -/
  positionalFrom : Int
  /-- The least larger exponent that is written with one. -/
  positionalBelow : Int
  plusSign : Bool
  tie : DecimalTie

namespace FloatForm

/-- Numbers from `0.0001` up to `10000000000000000` keep a point and a digit after it. -/
def canonical : FloatForm := ⟨-4, 16, false, .up⟩

/-- Numbers from `0.00001` are written out, and positive exponents have a plus. -/
def json : FloatForm := ⟨-5, 16, true, .even⟩

/-- The digits around the point, with zeros where the number has no digits. -/
def positional (s : Significant) : List Char :=
  if s.exponent < 0 then
    ['0', '.'] ++ List.replicate (-s.exponent - 1).toNat '0' ++ s.digits
  else
    let whole := s.exponent.toNat + 1
    if s.digits.length ≤ whole then
      s.digits ++ List.replicate (whole - s.digits.length) '0' ++ ['.', '0']
    else
      s.digits.take whole ++ ['.'] ++ s.digits.drop whole

/-- One digit before the point, and no point if there is no second digit. -/
def scientific (plusSign : Bool) (s : Significant) : List Char :=
  let fraction := if s.digits.length ≤ 1 then [] else '.' :: s.digits.drop 1
  let sign := if plusSign ∧ 0 ≤ s.exponent then ['+'] else []
  s.digits.take 1 ++ fraction ++ ['e'] ++ sign ++ (toString s.exponent).toList

def write (form : FloatForm) (x : Binary64) : String :=
  let sign := if x.negative then ['-'] else []
  if x.magnitude = 0 then String.ofList (sign ++ ['0', '.', '0'])
  else
    let s := Binary64.shortest form.tie x.magnitude
    let body :=
      if form.positionalFrom ≤ s.exponent ∧ s.exponent < form.positionalBelow then positional s
      else scientific form.plusSign s
    String.ofList (sign ++ body)

end FloatForm

end GraphQLSyntax
