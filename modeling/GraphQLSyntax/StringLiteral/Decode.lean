import GraphQLSyntax.StringLiteral.Block
import GraphQLSyntax.StringLiteral.Quoted

/-!
# Values of string literals
-/

set_option autoImplicit false

namespace GraphQLSyntax

/-- A literal that starts with triple quotes is a block string. -/
def isBlockLiteral (raw : String) : Bool :=
  tripleQuote.isPrefixOf raw.toList

def decodeStringLiteral (raw : String) : Except StringFault String :=
  ((if isBlockLiteral raw then decodeBlock else decodeQuoted) raw.toList).map String.ofList

end GraphQLSyntax
