/-!
# Reading signed 64-bit integers
-/

set_option autoImplicit false

namespace GraphQLSyntax

inductive IntegerFault where
  | empty
  | badDigit
  | tooLarge
  | tooSmall
  deriving DecidableEq, Repr

def IntegerFault.message : IntegerFault → String
  | .empty => "cannot parse integer from empty string"
  | .badDigit => "invalid digit found in string"
  | .tooLarge => "number too large to fit in target type"
  | .tooSmall => "number too small to fit in target type"

def digitsValue (cs : List Char) : Nat :=
  cs.foldl (fun n c => 10 * n + (c.toNat - '0'.toNat)) 0

/-- The number that a nonempty run of digits and nothing else denotes. -/
def natural? (cs : List Char) : Option Nat :=
  if cs ≠ [] ∧ cs.all Char.isDigit then some (digitsValue cs) else none

/-- A number with an optional sign in the range of 64 bits in two's complement. -/
def readInt64 (text : List Char) : Except IntegerFault Int :=
  match text with
  | [] => .error .empty
  | c :: cs =>
    if c = '-' then
      match natural? cs with
      | none => .error .badDigit
      | some n => if n ≤ Nat.pow 2 63 then .ok (-(n : Int)) else .error .tooSmall
    else
      match natural? (if c = '+' then cs else text) with
      | none => .error .badDigit
      | some n => if n < Nat.pow 2 63 then .ok (n : Int) else .error .tooLarge

/-- A number with an optional plus that fits in 64 bits without a sign. -/
def readNat64? (text : List Char) : Option Nat :=
  match natural? (if text.head? = some '+' then text.drop 1 else text) with
  | none => none
  | some n => if n < Nat.pow 2 64 then some n else none

end GraphQLSyntax
