/-!
# Faults of string literals
-/

set_option autoImplicit false

namespace GraphQLSyntax

inductive StringFault where
  /-- A backslash that starts no escape. The text is what was read of it. -/
  | invalidEscape (text : String)
  /-- A literal without its opening or closing quotes. -/
  | unterminated
  /-- `\u` without four hexadecimal digits after it, or with those of a surrogate. -/
  | invalidUnicodeEscape (text : String)
  deriving DecidableEq, Repr

def StringFault.message : StringFault → String
  | .invalidEscape text => "Invalid escape sequence: `" ++ text ++ "`"
  | .unterminated => "Unterminated string: missing closing quote"
  | .invalidUnicodeEscape text => "Invalid unicode escape: `" ++ text ++ "`"

end GraphQLSyntax
