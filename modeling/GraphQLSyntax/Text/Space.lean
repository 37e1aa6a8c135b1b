/-!
# White space and control characters
-/

set_option autoImplicit false

namespace GraphQLSyntax

/-- The white space property of the character database. -/
def isWhiteSpace (c : Char) : Bool :=
  let n := c.toNat
  (0x9 ≤ n && n ≤ 0xD) || n = 0x20 || n = 0x85 || n = 0xA0 || n = 0x1680 ||
    (0x2000 ≤ n && n ≤ 0x200A) || n = 0x2028 || n = 0x2029 || n = 0x202F || n = 0x205F ||
    n = 0x3000

def isBlankChar (c : Char) : Bool :=
  c = ' ' || c = '\t'

/-- The length of the run of spaces and tabs at the front of a text. -/
def blankRun (cs : List Char) : Nat :=
  (cs.takeWhile isBlankChar).length

def isControl (c : Char) : Bool :=
  let n := c.toNat
  n ≤ 0x1F || (0x7F ≤ n && n ≤ 0x9F)

def trimSpace (cs : List Char) : List Char :=
  ((cs.dropWhile isWhiteSpace).reverse.dropWhile isWhiteSpace).reverse

def trimSpaceEnd (cs : List Char) : List Char :=
  (cs.reverse.dropWhile isWhiteSpace).reverse

end GraphQLSyntax
