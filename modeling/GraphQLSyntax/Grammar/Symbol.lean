import GraphQLSyntax.Text.Split

/-!
# Grammar symbols

The constructs that a text can be parsed as.
-/

set_option autoImplicit false

namespace GraphQLSyntax

inductive GrammarSymbol where
  | document
  | definition
  | operationDefinition
  | operationType
  | variableDefinitions
  | variableDefinition
  | selectionSet
  | selection
  | field
  | responseAlias
  | arguments
  | argument
  | directives
  | directive
  | fragmentSpread
  | fragmentName
  | inlineFragment
  | fragmentDefinition
  | typeCondition
  | type
  | namedType
  | listType
  | nonNullType
  | value
  | constValue
  | booleanOrNullOrEnum
  | reference
  | listValue
  | objectValue
  | intValue
  | floatValue
  | stringValue
  | name
  deriving DecidableEq, Repr

namespace GrammarSymbol

def all : List GrammarSymbol :=
  [document, definition, operationDefinition, operationType, variableDefinitions,
    variableDefinition, selectionSet, selection, field, responseAlias, arguments, argument,
    directives, directive, fragmentSpread, fragmentName, inlineFragment, fragmentDefinition,
    typeCondition, type, namedType, listType, nonNullType, value, constValue, booleanOrNullOrEnum,
    reference, listValue, objectValue, intValue, floatValue, stringValue, name]

/-- The symbol that a text is parsed as when none is named. -/
def default : GrammarSymbol := document

def text : GrammarSymbol → String
  | document => "document"
  | definition => "definition"
  | operationDefinition => "operation_definition"
  | operationType => "operation_type"
  | variableDefinitions => "variable_definitions"
  | variableDefinition => "variable_definition"
  | selectionSet => "selection_set"
  | selection => "selection"
  | field => "field"
  | responseAlias => "alias"
  | arguments => "arguments"
  | argument => "argument"
  | directives => "directives"
  | directive => "directive"
  | fragmentSpread => "fragment_spread"
  | fragmentName => "fragment_name"
  | inlineFragment => "inline_fragment"
  | fragmentDefinition => "fragment_definition"
  | typeCondition => "type_condition"
  | type => "type"
  | namedType => "named_type"
  | listType => "list_type"
  | nonNullType => "non_null_type"
  | value => "value"
  | constValue => "const_value"
  | booleanOrNullOrEnum => "boolean_or_null_or_enum"
  | reference => "variable"
  | listValue => "list_value"
  | objectValue => "object_value"
  | intValue => "int_value"
  | floatValue => "float_value"
  | stringValue => "string_value"
  | name => "name"

def capitalizeWord : List Char → List Char
  | [] => []
  | c :: cs => c.toUpper :: cs

/-- The name of a symbol as one word, with its parts capitalized. -/
def title (s : GrammarSymbol) : String :=
  String.ofList ((splitAtChar '_' s.text.toList).flatMap capitalizeWord)

/-- A name without underscores, in lower case. Names that agree in this name the same symbol. -/
def foldName (name : String) : List Char :=
  (name.toList.filter (· != '_')).map Char.toLower

def ofName? (name : String) : Option GrammarSymbol :=
  all.find? fun s => foldName s.text == foldName name

/-- What is said about a name that is no symbol's. -/
def unknownMessage (name : String) : String :=
  "unknown grammar symbol `" ++ name ++ "`"

end GrammarSymbol

end GraphQLSyntax
