import GraphQLSyntax.Diagnostic.ParseError
import GraphQLSyntax.Token.Basic

/-!
# What a parser expected and what it found
-/

set_option autoImplicit false

namespace GraphQLSyntax

inductive Expected where
  /-- One certain punctuator or keyword. -/
  | text (word : String)
  | name
  | value
  | integer
  | float
  | string
  | booleanNullOrEnum
  | operationType
  | definition
  | endOfInput
  deriving DecidableEq, Repr

namespace Expected

def tokens : Expected → List String
  | text word => [word]
  | name => ["name"]
  | value => ["value"]
  | integer => ["integer"]
  | float => ["float"]
  | string => ["string"]
  | booleanNullOrEnum => ["true", "false", "null", "enum value"]
  | operationType => ["query", "mutation", "subscription"]
  | definition => ["query", "mutation", "subscription", "fragment", "\x7b"]
  | endOfInput => ["end of input"]

def description : Expected → String
  | text word => "`" ++ word ++ "`"
  | name => "name"
  | value => "value"
  | integer => "integer"
  | float => "float"
  | string => "string"
  | booleanNullOrEnum => "boolean, null, or enum value"
  | operationType => "operation type (`query`, `mutation`, or `subscription`)"
  | definition => "operation or fragment definition"
  | endOfInput => "end of input"

end Expected

/-- How an error shows a token. -/
def TokenKind.display : TokenKind → String
  | punctuator p => p.text
  | name text => text
  | int raw => raw
  | float raw => raw
  | string _ => "string"
  | boolean value => booleanWord value
  | null => "null"
  | endOfInput => "end of input"
  | error message _ => "tokenization error: " ++ message

namespace ParseError

/-- An error of the text itself. -/
def ofLexical (message : String) (span : Span) (notes : List Note) : ParseError :=
  ⟨message, span, .lexical, notes⟩

/-- The input ends at a span where more was expected. -/
def unexpectedEnd (span : Span) (expected : Expected) : ParseError :=
  ⟨"expected " ++ expected.description ++ ", found `end of input`", span,
    .unexpectedEnd expected.tokens, []⟩

/-- A token stands where something else was expected. An error token speaks for itself. -/
def unexpected (token : Token) (expected : Expected) : ParseError :=
  match token.kind with
  | .error message notes => .ofLexical message token.span notes
  | .endOfInput => .unexpectedEnd token.span expected
  | kind =>
    ⟨"expected " ++ expected.description ++ ", found `" ++ kind.display ++ "`", token.span,
      .unexpectedToken expected.tokens kind.display, []⟩

end ParseError

end GraphQLSyntax
