import GraphQLSyntax.Text.Hex

/-!
# Escapes

After a backslash, a quote, a backslash and a slash stand for themselves, some letters name a control
character, and `u` with four hexadecimal digits names a character by its code point.
-/

set_option autoImplicit false

namespace GraphQLSyntax

/-- The character that a backslash and one more character stand for. -/
def namedEscape? (c : Char) : Option Char :=
  match c with
  | '"' => some '"'
  | '\\' => some '\\'
  | '/' => some '/'
  | 'b' => some '\x08'
  | 'f' => some '\x0c'
  | 'n' => some '\n'
  | 'r' => some '\r'
  | 't' => some '\t'
  | _ => none

def isSurrogate (n : Nat) : Bool :=
  0xD800 ≤ n && n ≤ 0xDFFF

/-- The character with a code point of four hexadecimal digits. Surrogates are not characters. -/
def escapedScalar? (a b c d : Char) : Option Char :=
  match hexNumber? [a, b, c, d] with
  | none => none
  | some n => if isSurrogate n then none else some (Char.ofNat n)

/-- The hexadecimal digits among the first four characters, up to the first other one. -/
def unicodeDigits (cs : List Char) : List Char :=
  (cs.take 4).takeWhile isHexDigit

end GraphQLSyntax
