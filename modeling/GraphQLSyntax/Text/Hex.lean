/-!
# Hexadecimal digits
-/

set_option autoImplicit false

namespace GraphQLSyntax

def isHexDigit (c : Char) : Bool :=
  c.isDigit || ('a' ≤ c && c ≤ 'f') || ('A' ≤ c && c ≤ 'F')

/-- The value of a hexadecimal digit of either case. Other characters have none. -/
def hexValue? (c : Char) : Option Nat :=
  if c.isDigit then some (c.toNat - '0'.toNat)
  else if 'a' ≤ c && c ≤ 'f' then some (c.toNat - 'a'.toNat + 10)
  else if 'A' ≤ c && c ≤ 'F' then some (c.toNat - 'A'.toNat + 10)
  else none

def hexNumber? (cs : List Char) : Option Nat :=
  cs.foldl (fun n c => n.bind fun n => (hexValue? c).map (16 * n + ·)) (some 0)

def lowerHex (n : Nat) : List Char :=
  Nat.toDigits 16 n

/-- Digits with zeros in front up to the width. -/
def padDigits (width : Nat) (digits : List Char) : List Char :=
  List.replicate (width - digits.length) '0' ++ digits

def upperHex (width n : Nat) : List Char :=
  padDigits width ((Nat.toDigits 16 n).map Char.toUpper)

end GraphQLSyntax
