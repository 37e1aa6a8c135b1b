/-!
# Number literals

An integer literal is an optional minus and either a zero or digits that start with none. A float
literal is an integer literal with a fraction, an exponent, or both. The scan takes the longest literal
at the front of a text. Every character of a literal takes one byte, so lengths count both.
-/

set_option autoImplicit false

namespace GraphQLSyntax

inductive NumberKind where
  | int
  | float
  deriving DecidableEq, Repr

inductive NumberFault where
  /-- No digit where the integer part starts. -/
  | missingDigits
  /-- A zero with more digits after it. -/
  | leadingZero
  /-- No digit in an exponent. -/
  | missingExponentDigits
  deriving DecidableEq, Repr

/-- What a scan finds, with the length of the text it covers. -/
inductive NumberScan where
  | literal (kind : NumberKind) (length : Nat)
  | fault (fault : NumberFault) (length : Nat)
  deriving DecidableEq, Repr

def digitRun (cs : List Char) : Nat :=
  (cs.takeWhile Char.isDigit).length

/-- An exponent, if one starts here, after `length` characters of a literal. -/
def scanExponent (kind : NumberKind) (length : Nat) : List Char → NumberScan
  | [] => .literal kind length
  | e :: cs =>
    if e = 'e' ∨ e = 'E' then
      let sign := if cs.head? = some '+' ∨ cs.head? = some '-' then 1 else 0
      let digits := digitRun (cs.drop sign)
      if digits = 0 then .fault .missingExponentDigits (length + 1 + sign)
      else .literal .float (length + 1 + sign + digits)
    else .literal kind length

/-- A fraction, if one starts here, and an exponent. A point that no digit follows starts none. -/
def scanFraction (length : Nat) : List Char → NumberScan
  | [] => .literal .int length
  | c :: cs =>
    if c = '.' ∧ digitRun cs ≠ 0 then
      scanExponent .float (length + 1 + digitRun cs) (cs.drop (digitRun cs))
    else scanExponent .int length (c :: cs)

def scanNumber (text : List Char) : NumberScan :=
  let sign := if text.head? = some '-' then 1 else 0
  match text.drop sign with
  | [] => .fault .missingDigits sign
  | c :: cs =>
    if c = '0' then
      if digitRun cs = 0 then scanFraction (sign + 1) cs
      else .fault .leadingZero (sign + 1 + digitRun cs)
    else if c.isDigit then
      scanFraction (sign + 1 + digitRun cs) (cs.drop (digitRun cs))
    else .fault .missingDigits sign

/-- The kind of literal that the whole text is. -/
def classifyNumber (text : List Char) : Option NumberKind :=
  match scanNumber text with
  | .literal kind length => if length = text.length then some kind else none
  | .fault _ _ => none

end GraphQLSyntax
