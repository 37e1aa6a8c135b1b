import GraphQLSyntax.Outline.Basic

/-!
# Outlines of nodes
-/

set_option autoImplicit false

namespace GraphQLSyntax

def Name.outline (n : Name) : Outline :=
  .record "Name" [⟨"span", .span n.span⟩, ⟨"value", .text n.value⟩]

def Variable.outline (v : Variable) : Outline :=
  .record "VariableValue" [⟨"name", v.name.outline⟩, ⟨"span", .span v.span⟩]

def IntValue.outline (v : IntValue) : Outline :=
  .record "IntValue" [⟨"span", .span v.span⟩, ⟨"value", .integer v.value⟩]

def FloatValue.outline (v : FloatValue) : Outline :=
  .record "FloatValue" [⟨"span", .span v.span⟩, ⟨"value", .float v.value⟩]

def StringValue.outline (v : StringValue) : Outline :=
  .record "StringValue"
    [⟨"is_block", .flag v.isBlock⟩, ⟨"span", .span v.span⟩, ⟨"value", .text v.value⟩]

def BooleanValue.outline (v : BooleanValue) : Outline :=
  .record "BooleanValue" [⟨"span", .span v.span⟩, ⟨"value", .flag v.value⟩]

def NullValue.outline (v : NullValue) : Outline :=
  .record "NullValue" [⟨"span", .span v.span⟩]

def EnumValue.outline (v : EnumValue) : Outline :=
  .record "EnumValue" [⟨"span", .span v.span⟩, ⟨"value", .text v.value⟩]

mutual

def Value.outline : Value → Outline
  | .boolean v => .variant "Boolean" v.outline
  | .enum v => .variant "Enum" v.outline
  | .float v => .variant "Float" v.outline
  | .int v => .variant "Int" v.outline
  | .list v => .variant "List" v.outline
  | .null v => .variant "Null" v.outline
  | .object v => .variant "Object" v.outline
  | .string v => .variant "String" v.outline
  | .reference v => .variant "Variable" v.outline

def ListValue.outline : ListValue → Outline
  | ⟨values, span⟩ =>
    .record "ListValue" [⟨"span", .span span⟩, ⟨"values", .list (Value.outlines values)⟩]

def ObjectValue.outline : ObjectValue → Outline
  | ⟨fields, span⟩ =>
    .record "ObjectValue" [⟨"fields", .list (ObjectField.outlines fields)⟩, ⟨"span", .span span⟩]

def ObjectField.outline : ObjectField → Outline
  | ⟨name, value, span⟩ =>
    .record "ObjectField"
      [⟨"name", name.outline⟩, ⟨"span", .span span⟩, ⟨"value", value.outline⟩]

def Value.outlines : List Value → List Outline
  | [] => []
  | v :: vs => v.outline :: Value.outlines vs

def ObjectField.outlines : List ObjectField → List Outline
  | [] => []
  | f :: fs => f.outline :: ObjectField.outlines fs

end

def NamedType.outline (t : NamedType) : Outline :=
  .record "NamedType" [⟨"name", t.name.outline⟩, ⟨"span", .span t.span⟩]

mutual

def TypeReference.outline : TypeReference → Outline
  | .list t => .variant "List" t.outline
  | .named t => .variant "Named" t.outline
  | .nonNull t => .variant "NonNull" t.outline

def ListType.outline : ListType → Outline
  | ⟨item, span⟩ =>
    .record "ListType" [⟨"item_type", item.outline⟩, ⟨"span", .span span⟩]

def NonNullType.outline : NonNullType → Outline
  | ⟨inner, span⟩ =>
    .record "NonNullType" [⟨"inner", inner.outline⟩, ⟨"span", .span span⟩]

def NullableType.outline : NullableType → Outline
  | .list t => .variant "List" t.outline
  | .named t => .variant "Named" t.outline

end

def Argument.outline (a : Argument) : Outline :=
  .record "Argument"
    [⟨"name", a.name.outline⟩, ⟨"span", .span a.span⟩, ⟨"value", a.value.outline⟩]

def Directive.outline (d : Directive) : Outline :=
  .record "DirectiveAnnotation"
    [⟨"arguments", .list (d.arguments.map Argument.outline)⟩, ⟨"name", d.name.outline⟩,
      ⟨"span", .span d.span⟩]

def Alias.outline (a : Alias) : Outline :=
  .record "Alias" [⟨"name", a.name.outline⟩, ⟨"span", .span a.span⟩]

def TypeCondition.outline (t : TypeCondition) : Outline :=
  .record "TypeCondition" [⟨"named_type", t.namedType.outline⟩, ⟨"span", .span t.span⟩]

def FragmentSpread.outline (s : FragmentSpread) : Outline :=
  .record "FragmentSpread"
    [⟨"directives", .list (s.directives.map Directive.outline)⟩, ⟨"name", s.name.outline⟩,
      ⟨"span", .span s.span⟩]

mutual

def SelectionSet.outline : SelectionSet → Outline
  | ⟨selections, span⟩ =>
    .record "SelectionSet"
      [⟨"selections", .list (Selection.outlines selections)⟩, ⟨"span", .span span⟩]

def Selection.outline : Selection → Outline
  | .field s => .variant "Field" s.outline
  | .fragmentSpread s => .variant "FragmentSpread" s.outline
  | .inlineFragment s => .variant "InlineFragment" s.outline

def Field.outline : Field → Outline
  | ⟨responseAlias, name, arguments, directives, selectionSet, span⟩ =>
    .record "Field"
      [⟨"alias", .ofOption (responseAlias.map Alias.outline)⟩,
        ⟨"arguments", .list (arguments.map Argument.outline)⟩,
        ⟨"directives", .list (directives.map Directive.outline)⟩, ⟨"name", name.outline⟩,
        ⟨"selection_set", SelectionSet.outlineOptional selectionSet⟩, ⟨"span", .span span⟩]

def InlineFragment.outline : InlineFragment → Outline
  | ⟨typeCondition, directives, selectionSet, span⟩ =>
    .record "InlineFragment"
      [⟨"directives", .list (directives.map Directive.outline)⟩,
        ⟨"selection_set", selectionSet.outline⟩, ⟨"span", .span span⟩,
        ⟨"type_condition", .ofOption (typeCondition.map TypeCondition.outline)⟩]

def SelectionSet.outlineOptional : Option SelectionSet → Outline
  | none => .absent
  | some s => .present s.outline

def Selection.outlines : List Selection → List Outline
  | [] => []
  | s :: ss => s.outline :: Selection.outlines ss

end

def OperationKind.outline : OperationKind → Outline
  | mutation => .tag "Mutation"
  | query => .tag "Query"
  | subscription => .tag "Subscription"

def VariableDefinition.outline (d : VariableDefinition) : Outline :=
  .record "VariableDefinition"
    [⟨"default_value", .ofOption (d.defaultValue.map Value.outline)⟩, ⟨"span", .span d.span⟩,
      ⟨"var_type", d.type.outline⟩, ⟨"variable", d.declared.outline⟩]

def OperationDefinition.outline (o : OperationDefinition) : Outline :=
  .record "OperationDefinition"
    [⟨"directives", .list (o.directives.map Directive.outline)⟩,
      ⟨"name", .ofOption (o.name.map Name.outline)⟩, ⟨"operation_kind", o.kind.outline⟩,
      ⟨"selection_set", o.selectionSet.outline⟩, ⟨"span", .span o.span⟩,
      ⟨"variable_definitions", .list (o.variableDefinitions.map VariableDefinition.outline)⟩]

def FragmentDefinition.outline (f : FragmentDefinition) : Outline :=
  .record "FragmentDefinition"
    [⟨"directives", .list (f.directives.map Directive.outline)⟩, ⟨"name", f.name.outline⟩,
      ⟨"selection_set", f.selectionSet.outline⟩, ⟨"span", .span f.span⟩,
      ⟨"type_condition", f.typeCondition.outline⟩]

def Definition.outline : Definition → Outline
  | .fragment d => .variant "Fragment" d.outline
  | .operation d => .variant "Operation" d.outline

def Document.outline (d : Document) : Outline :=
  .record "Document"
    [⟨"definitions", .list (d.definitions.map Definition.outline)⟩, ⟨"span", .span d.span⟩]

namespace Construct

def content : Construct → Outline
  | document d => d.outline
  | definition d => d.outline
  | operationDefinition d => d.outline
  | operationType k => k.outline
  | variableDefinitions ds => .list (ds.map VariableDefinition.outline)
  | variableDefinition d => d.outline
  | selectionSet s => s.outline
  | selection s => s.outline
  | field f => f.outline
  | responseAlias a => a.outline
  | arguments as => .list (as.map Argument.outline)
  | argument a => a.outline
  | directives ds => .list (ds.map Directive.outline)
  | directive d => d.outline
  | fragmentSpread s => s.outline
  | fragmentName n => n.outline
  | inlineFragment f => f.outline
  | fragmentDefinition d => d.outline
  | typeCondition t => t.outline
  | type t => t.outline
  | namedType t => t.outline
  | listType t => t.outline
  | nonNullType t => t.outline
  | value v => v.outline
  | constValue v => v.outline
  | booleanOrNullOrEnum v => v.outline
  | reference v => v.outline
  | listValue v => v.outline
  | objectValue v => v.outline
  | intValue v => v.outline
  | floatValue v => v.outline
  | stringValue v => v.outline
  | name n => n.outline

def outline (c : Construct) : Outline :=
  .variant c.symbol.title c.content

/-- Equal constructs, with numbers compared by value and spans as spans are. -/
def same (a b : Construct) : Bool :=
  a.outline.same b.outline

end Construct

end GraphQLSyntax
