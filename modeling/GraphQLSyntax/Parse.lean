import GraphQLSyntax.Construct
import GraphQLSyntax.Parser.Definition
import GraphQLSyntax.Token.Lexer

/-!
# Parsing a text as a grammar symbol

Whatever the symbol, all of the input has to be used.
-/

set_option autoImplicit false

namespace GraphQLSyntax

namespace Parser

def construct : GrammarSymbol → Parser Construct
  | .document => return .document (← document)
  | .definition => return .definition (← definition)
  | .operationDefinition => return .operationDefinition (← operationDefinition)
  | .operationType => return .operationType (← operationType).1
  | .variableDefinitions => return .variableDefinitions (← variableDefinitions)
  | .variableDefinition => return .variableDefinition (← variableDefinition)
  | .selectionSet => return .selectionSet (← selectionSet)
  | .selection => return .selection (← selection)
  | .field => return .field (← field)
  | .responseAlias => return .responseAlias (← responseAlias)
  | .arguments => return .arguments (← arguments .fieldArguments)
  | .argument => return .argument (← argument)
  | .directives => return .directives (← directives)
  | .directive => return .directive (← directive)
  | .fragmentSpread => return .fragmentSpread (← fragmentSpread)
  | .fragmentName => return .fragmentName (← fragmentName)
  | .inlineFragment => return .inlineFragment (← inlineFragment)
  | .fragmentDefinition => return .fragmentDefinition (← fragmentDefinition)
  | .typeCondition => return .typeCondition (← typeCondition)
  | .type => return .type (← typeReference)
  | .namedType => return .namedType (← namedType)
  | .listType => return .listType (← listType)
  | .nonNullType => return .nonNullType (← nonNullType)
  | .value => return .value (← value .argument)
  | .constValue => return .constValue (← value .constant)
  | .booleanOrNullOrEnum => return .booleanOrNullOrEnum (← booleanNullOrEnum)
  | .reference => return .reference (← reference)
  | .listValue => return .listValue (← listValue)
  | .objectValue => return .objectValue (← objectValue)
  | .intValue => return .intValue (← intValue)
  | .floatValue => return .floatValue (← floatValue)
  | .stringValue => return .stringValue (← stringValue)
  | .name => return .name (← name)

/-- A production with nothing after it. -/
def whole {α : Type} (p : Parser α) : Parser α := do
  let a ← p
  expectEnd
  return a

def result {α : Type} (p : Parser α) (tokens : List Token) : Except ParseError α :=
  match p.run (.ofTokens tokens) with
  | .ok a _ => .ok a
  | .error e _ => .error e

end Parser

def parseTokens (tokens : List Token) (symbol : GrammarSymbol) : Except ParseError Construct :=
  (Parser.whole (Parser.construct symbol)).result tokens

/-- Parses a text, whose spans name the file if one is given. -/
def parse (file : Option Path) (source : String) (symbol : GrammarSymbol) :
    Except ParseError Construct :=
  parseTokens (lex file source) symbol

def parseDocument (file : Option Path) (source : String) : Except ParseError Document :=
  (Parser.whole Parser.document).result (lex file source)

end GraphQLSyntax
