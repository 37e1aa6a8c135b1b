import GraphQLSyntax.Construct

/-!
# Walking through nodes

A walk lists a node and all nodes inside it, each before the nodes inside it, in the order in which
they are written.
-/

set_option autoImplicit false

namespace GraphQLSyntax

inductive Node where
  | document (d : Document)
  | operationDefinition (d : OperationDefinition)
  | fragmentDefinition (d : FragmentDefinition)
  | variableDefinition (d : VariableDefinition)
  | selectionSet (s : SelectionSet)
  | field (f : Field)
  | responseAlias (a : Alias)
  | argument (a : Argument)
  | directive (d : Directive)
  | fragmentSpread (s : FragmentSpread)
  | inlineFragment (f : InlineFragment)
  | typeCondition (t : TypeCondition)
  | namedType (t : NamedType)
  | type (t : TypeReference)
  | listType (t : ListType)
  | nonNullType (t : NonNullType)
  | nullableType (t : NullableType)
  | name (n : Name)
  | reference (v : Variable)
  | listValue (v : ListValue)
  | objectValue (v : ObjectValue)
  | objectField (f : ObjectField)
  | booleanValue (v : BooleanValue)
  | enumValue (v : EnumValue)
  | floatValue (v : FloatValue)
  | intValue (v : IntValue)
  | nullValue (v : NullValue)
  | stringValue (v : StringValue)

namespace Node

def span : Node → Span
  | document d => d.span
  | operationDefinition d => d.span
  | fragmentDefinition d => d.span
  | variableDefinition d => d.span
  | selectionSet s => s.span
  | field f => f.span
  | responseAlias a => a.span
  | argument a => a.span
  | directive d => d.span
  | fragmentSpread s => s.span
  | inlineFragment f => f.span
  | typeCondition t => t.span
  | namedType t => t.span
  | type t => t.span
  | listType t => t.span
  | nonNullType t => t.span
  | nullableType t => t.span
  | name n => n.span
  | reference v => v.span
  | listValue v => v.span
  | objectValue v => v.span
  | objectField f => f.span
  | booleanValue v => v.span
  | enumValue v => v.span
  | floatValue v => v.span
  | intValue v => v.span
  | nullValue v => v.span
  | stringValue v => v.span

def print : Node → List Char
  | document d => d.print
  | operationDefinition d => d.print
  | fragmentDefinition d => d.print
  | variableDefinition d => d.print
  | selectionSet s => s.print
  | field f => f.print
  | responseAlias a => a.print
  | argument a => a.print
  | directive d => d.print
  | fragmentSpread s => s.print
  | inlineFragment f => f.print
  | typeCondition t => t.print
  | namedType t => t.print
  | type t => t.print
  | listType t => t.print
  | nonNullType t => t.print
  | nullableType t => t.print
  | name n => n.print
  | reference v => v.print
  | listValue v => v.print
  | objectValue v => v.print
  | objectField f => f.print
  | booleanValue v => v.print
  | enumValue v => v.print
  | floatValue v => v.print
  | intValue v => v.print
  | nullValue v => v.print
  | stringValue v => v.print

def text (n : Node) : String := String.ofList n.print

end Node

def Variable.walk (v : Variable) : List Node := [.reference v, .name v.name]

mutual

def Value.walk : Value → List Node
  | .boolean v => [.booleanValue v]
  | .enum v => [.enumValue v]
  | .float v => [.floatValue v]
  | .int v => [.intValue v]
  | .list v => v.walk
  | .null v => [.nullValue v]
  | .object v => v.walk
  | .string v => [.stringValue v]
  | .reference v => v.walk

def ListValue.walk : ListValue → List Node
  | ⟨values, span⟩ => .listValue ⟨values, span⟩ :: Value.walkAll values

def ObjectValue.walk : ObjectValue → List Node
  | ⟨fields, span⟩ => .objectValue ⟨fields, span⟩ :: ObjectField.walkAll fields

def ObjectField.walk : ObjectField → List Node
  | ⟨name, value, span⟩ => .objectField ⟨name, value, span⟩ :: .name name :: value.walk

def Value.walkAll : List Value → List Node
  | [] => []
  | v :: vs => v.walk ++ Value.walkAll vs

def ObjectField.walkAll : List ObjectField → List Node
  | [] => []
  | f :: fs => f.walk ++ ObjectField.walkAll fs

end

def NamedType.walk (t : NamedType) : List Node := [.namedType t, .name t.name]

mutual

def TypeReference.walk : TypeReference → List Node
  | .list t => .type (.list t) :: t.walk
  | .named t => .type (.named t) :: t.walk
  | .nonNull t => .type (.nonNull t) :: t.walk

def ListType.walk : ListType → List Node
  | ⟨item, span⟩ => .listType ⟨item, span⟩ :: item.walk

def NonNullType.walk : NonNullType → List Node
  | ⟨inner, span⟩ => .nonNullType ⟨inner, span⟩ :: .nullableType inner :: inner.walk

/-- The nodes inside a nullable type, which has none of its own here. -/
def NullableType.walk : NullableType → List Node
  | .list t => t.walk
  | .named t => t.walk

end

def Argument.walk (a : Argument) : List Node := .argument a :: .name a.name :: a.value.walk

def Directive.walk (d : Directive) : List Node :=
  .directive d :: .name d.name :: d.arguments.flatMap Argument.walk

def Alias.walk (a : Alias) : List Node := [.responseAlias a, .name a.name]

def TypeCondition.walk (t : TypeCondition) : List Node := .typeCondition t :: t.namedType.walk

def FragmentSpread.walk (s : FragmentSpread) : List Node :=
  .fragmentSpread s :: .name s.name :: s.directives.flatMap Directive.walk

def Field.walkHead (responseAlias : Option Alias) (name : Name) (arguments : List Argument)
    (directives : List Directive) : List Node :=
  responseAlias.toList.flatMap Alias.walk ++ [.name name] ++ arguments.flatMap Argument.walk ++
    directives.flatMap Directive.walk

mutual

def SelectionSet.walk : SelectionSet → List Node
  | ⟨selections, span⟩ => .selectionSet ⟨selections, span⟩ :: Selection.walkAll selections

def Selection.walk : Selection → List Node
  | .field s => s.walk
  | .fragmentSpread s => s.walk
  | .inlineFragment s => s.walk

def Field.walk : Field → List Node
  | ⟨responseAlias, name, arguments, directives, selectionSet, span⟩ =>
    .field ⟨responseAlias, name, arguments, directives, selectionSet, span⟩ ::
      (Field.walkHead responseAlias name arguments directives ++
        SelectionSet.walkOptional selectionSet)

def InlineFragment.walk : InlineFragment → List Node
  | ⟨typeCondition, directives, selectionSet, span⟩ =>
    .inlineFragment ⟨typeCondition, directives, selectionSet, span⟩ ::
      (typeCondition.toList.flatMap TypeCondition.walk ++ directives.flatMap Directive.walk ++
        selectionSet.walk)

def SelectionSet.walkOptional : Option SelectionSet → List Node
  | none => []
  | some s => s.walk

def Selection.walkAll : List Selection → List Node
  | [] => []
  | s :: ss => s.walk ++ Selection.walkAll ss

end

def VariableDefinition.walk (d : VariableDefinition) : List Node :=
  .variableDefinition d ::
    (d.declared.walk ++ d.type.walk ++ d.defaultValue.toList.flatMap Value.walk)

def OperationDefinition.walk (o : OperationDefinition) : List Node :=
  .operationDefinition o ::
    (o.name.toList.map .name ++ o.variableDefinitions.flatMap VariableDefinition.walk ++
      o.directives.flatMap Directive.walk ++ o.selectionSet.walk)

def FragmentDefinition.walk (f : FragmentDefinition) : List Node :=
  .fragmentDefinition f :: .name f.name ::
    (f.typeCondition.walk ++ f.directives.flatMap Directive.walk ++ f.selectionSet.walk)

def Definition.walk : Definition → List Node
  | .fragment d => d.walk
  | .operation d => d.walk

def Document.walk (d : Document) : List Node :=
  .document d :: d.definitions.flatMap Definition.walk

/-- The nodes of a construct. A kind of operation is no node and has none. -/
def Construct.walk : Construct → List Node
  | document d => d.walk
  | definition d => d.walk
  | operationDefinition d => d.walk
  | operationType _ => []
  | variableDefinitions ds => ds.flatMap VariableDefinition.walk
  | variableDefinition d => d.walk
  | selectionSet s => s.walk
  | selection s => s.walk
  | field f => f.walk
  | responseAlias a => a.walk
  | arguments as => as.flatMap Argument.walk
  | argument a => a.walk
  | directives ds => ds.flatMap Directive.walk
  | directive d => d.walk
  | fragmentSpread s => s.walk
  | fragmentName n => [.name n]
  | inlineFragment f => f.walk
  | fragmentDefinition d => d.walk
  | typeCondition t => t.walk
  | type t => t.walk
  | namedType t => t.walk
  | listType t => t.walk
  | nonNullType t => t.walk
  | value v => v.walk
  | constValue v => v.walk
  | booleanOrNullOrEnum v => v.walk
  | reference v => v.walk
  | listValue v => v.walk
  | objectValue v => v.walk
  | intValue v => [.intValue v]
  | floatValue v => [.floatValue v]
  | stringValue v => [.stringValue v]
  | name n => [.name n]

end GraphQLSyntax
