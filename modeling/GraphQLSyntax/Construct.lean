import GraphQLSyntax.Grammar.Symbol
import GraphQLSyntax.Node.Printer
import GraphQLSyntax.Source.Slice

/-!
# Constructs

A construct is what a text is parsed into: a node, a list of nodes, or a kind of operation.
-/

set_option autoImplicit false

namespace GraphQLSyntax

inductive Construct where
  | document (d : Document)
  | definition (d : Definition)
  | operationDefinition (d : OperationDefinition)
  | operationType (k : OperationKind)
  | variableDefinitions (ds : List VariableDefinition)
  | variableDefinition (d : VariableDefinition)
  | selectionSet (s : SelectionSet)
  | selection (s : Selection)
  | field (f : Field)
  | responseAlias (a : Alias)
  | arguments (as : List Argument)
  | argument (a : Argument)
  | directives (ds : List Directive)
  | directive (d : Directive)
  | fragmentSpread (s : FragmentSpread)
  | fragmentName (n : Name)
  | inlineFragment (f : InlineFragment)
  | fragmentDefinition (d : FragmentDefinition)
  | typeCondition (t : TypeCondition)
  | type (t : TypeReference)
  | namedType (t : NamedType)
  | listType (t : ListType)
  | nonNullType (t : NonNullType)
  | value (v : Value)
  | constValue (v : Value)
  | booleanOrNullOrEnum (v : Value)
  | reference (v : Variable)
  | listValue (v : ListValue)
  | objectValue (v : ObjectValue)
  | intValue (v : IntValue)
  | floatValue (v : FloatValue)
  | stringValue (v : StringValue)
  | name (n : Name)

/-- From the first to the last of some spans. -/
def Span.ofAll? (spans : List Span) : Option Span :=
  match spans.head?, spans.getLast? with
  | some first, some last => some (first.join last)
  | _, _ => none

namespace Construct

def symbol : Construct → GrammarSymbol
  | document _ => .document
  | definition _ => .definition
  | operationDefinition _ => .operationDefinition
  | operationType _ => .operationType
  | variableDefinitions _ => .variableDefinitions
  | variableDefinition _ => .variableDefinition
  | selectionSet _ => .selectionSet
  | selection _ => .selection
  | field _ => .field
  | responseAlias _ => .responseAlias
  | arguments _ => .arguments
  | argument _ => .argument
  | directives _ => .directives
  | directive _ => .directive
  | fragmentSpread _ => .fragmentSpread
  | fragmentName _ => .fragmentName
  | inlineFragment _ => .inlineFragment
  | fragmentDefinition _ => .fragmentDefinition
  | typeCondition _ => .typeCondition
  | type _ => .type
  | namedType _ => .namedType
  | listType _ => .listType
  | nonNullType _ => .nonNullType
  | value _ => .value
  | constValue _ => .constValue
  | booleanOrNullOrEnum _ => .booleanOrNullOrEnum
  | reference _ => .reference
  | listValue _ => .listValue
  | objectValue _ => .objectValue
  | intValue _ => .intValue
  | floatValue _ => .floatValue
  | stringValue _ => .stringValue
  | name _ => .name

def document? : Construct → Option Document
  | document d => some d
  | _ => none

/-- The value of a construct whose symbol admits values of several kinds. -/
def value? : Construct → Option Value
  | value v | constValue v | booleanOrNullOrEnum v => some v
  | _ => none

/-- Kinds of operations and empty lists have no span. -/
def span? : Construct → Option Span
  | document d => some d.span
  | definition d => some d.span
  | operationDefinition d => some d.span
  | operationType _ => none
  | variableDefinitions ds => Span.ofAll? (ds.map (·.span))
  | variableDefinition d => some d.span
  | selectionSet s => some s.span
  | selection s => some s.span
  | field f => some f.span
  | responseAlias a => some a.span
  | arguments as => Span.ofAll? (as.map (·.span))
  | argument a => some a.span
  | directives ds => Span.ofAll? (ds.map (·.span))
  | directive d => some d.span
  | fragmentSpread s => some s.span
  | fragmentName n => some n.span
  | inlineFragment f => some f.span
  | fragmentDefinition d => some d.span
  | typeCondition t => some t.span
  | type t => some t.span
  | namedType t => some t.span
  | listType t => some t.span
  | nonNullType t => some t.span
  | value v => some v.span
  | constValue v => some v.span
  | booleanOrNullOrEnum v => some v.span
  | reference v => some v.span
  | listValue v => some v.span
  | objectValue v => some v.span
  | intValue v => some v.span
  | floatValue v => some v.span
  | stringValue v => some v.span
  | name n => some n.span

/-- The canonical text. -/
def print : Construct → List Char
  | document d => d.print
  | definition d => d.print
  | operationDefinition d => d.print
  | operationType k => k.text.toList
  | variableDefinitions ds => VariableDefinition.printAll ds
  | variableDefinition d => d.print
  | selectionSet s => s.print
  | selection s => s.print
  | field f => f.print
  | responseAlias a => a.print
  | arguments as => Argument.printAll as
  | argument a => a.print
  | directives ds => [' '].intercalate (ds.map Directive.print)
  | directive d => d.print
  | fragmentSpread s => s.print
  | fragmentName n => n.print
  | inlineFragment f => f.print
  | fragmentDefinition d => d.print
  | typeCondition t => t.print
  | type t => t.print
  | namedType t => t.print
  | listType t => t.print
  | nonNullType t => t.print
  | value v => v.print
  | constValue v => v.print
  | booleanOrNullOrEnum v => v.print
  | reference v => v.print
  | listValue v => v.print
  | objectValue v => v.print
  | intValue v => v.print
  | floatValue v => v.print
  | stringValue v => v.print
  | name n => n.print

def text (c : Construct) : String := String.ofList c.print

/-- Whether a construct has one span that its text stands under. -/
def isSpanned : Construct → Bool
  | operationType _ | variableDefinitions _ | arguments _ | directives _ => false
  | _ => true

/-- The text of a construct as it was written. Lists and kinds of operations are printed instead. -/
def slice? (c : Construct) (source : String) : Option String :=
  if c.isSpanned then c.span?.bind fun s => s.slice? source else some c.text

end Construct

end GraphQLSyntax
