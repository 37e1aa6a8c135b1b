import GraphQLSyntax.Construct

/-!
# Nodes at other positions

Relocation moves what was read from one text to where it stands in another one. It changes all spans of a node and
nothing else. Moved to the origin, all nodes that differ in their spans only are the same.
-/

set_option autoImplicit false

namespace GraphQLSyntax

/-- Where positions go, and under which name a file is known there. The origin stays, and so does what is in no
file. -/
structure Relocation where
  position : Position → Position
  file : Option Path → Option Path
  position_origin : position .origin = .origin
  file_none : file none = none

/-- All positions become the origin, in no file. -/
def Relocation.nowhere : Relocation :=
  ⟨fun _ => .origin, fun _ => none, rfl, rfl⟩

variable (r : Relocation)

def Span.relocate (s : Span) : Span :=
  ⟨r.position s.start, r.position s.stop, r.file s.file⟩

/-! ## Values -/

def Name.relocate (n : Name) : Name := ⟨n.value, n.span.relocate r⟩

def Variable.relocate (v : Variable) : Variable := ⟨v.name.relocate r, v.span.relocate r⟩

def IntValue.relocate (v : IntValue) : IntValue := ⟨v.value, v.span.relocate r⟩

def FloatValue.relocate (v : FloatValue) : FloatValue := ⟨v.value, v.span.relocate r⟩

def StringValue.relocate (v : StringValue) : StringValue := ⟨v.value, v.isBlock, v.span.relocate r⟩

def BooleanValue.relocate (v : BooleanValue) : BooleanValue := ⟨v.value, v.span.relocate r⟩

def NullValue.relocate (v : NullValue) : NullValue := ⟨v.span.relocate r⟩

def EnumValue.relocate (v : EnumValue) : EnumValue := ⟨v.value, v.span.relocate r⟩

mutual

def Value.relocate : Value → Value
  | .boolean v => .boolean (v.relocate r)
  | .enum v => .enum (v.relocate r)
  | .float v => .float (v.relocate r)
  | .int v => .int (v.relocate r)
  | .list v => .list v.relocate
  | .null v => .null (v.relocate r)
  | .object v => .object v.relocate
  | .string v => .string (v.relocate r)
  | .reference v => .reference (v.relocate r)

def ListValue.relocate : ListValue → ListValue
  | ⟨values, span⟩ => ⟨Value.relocateAll values, span.relocate r⟩

def ObjectValue.relocate : ObjectValue → ObjectValue
  | ⟨fields, span⟩ => ⟨ObjectField.relocateAll fields, span.relocate r⟩

def ObjectField.relocate : ObjectField → ObjectField
  | ⟨name, value, span⟩ => ⟨name.relocate r, value.relocate, span.relocate r⟩

def Value.relocateAll : List Value → List Value
  | [] => []
  | v :: vs => v.relocate :: Value.relocateAll vs

def ObjectField.relocateAll : List ObjectField → List ObjectField
  | [] => []
  | f :: fs => f.relocate :: ObjectField.relocateAll fs

end

theorem Value.relocateAll_eq (vs : List Value) : Value.relocateAll r vs = vs.map (Value.relocate r) := by
  induction vs with
  | nil => rfl
  | cons v vs ih => rw [Value.relocateAll, ih, List.map_cons]

theorem ObjectField.relocateAll_eq (fs : List ObjectField) :
    ObjectField.relocateAll r fs = fs.map (ObjectField.relocate r) := by
  induction fs with
  | nil => rfl
  | cons f fs ih => rw [ObjectField.relocateAll, ih, List.map_cons]

/-! ## Type references -/

def NamedType.relocate (t : NamedType) : NamedType := ⟨t.name.relocate r, t.span.relocate r⟩

mutual

def TypeReference.relocate : TypeReference → TypeReference
  | .list t => .list t.relocate
  | .named t => .named (t.relocate r)
  | .nonNull t => .nonNull t.relocate

def ListType.relocate : ListType → ListType
  | ⟨item, span⟩ => ⟨item.relocate, span.relocate r⟩

def NonNullType.relocate : NonNullType → NonNullType
  | ⟨inner, span⟩ => ⟨inner.relocate, span.relocate r⟩

def NullableType.relocate : NullableType → NullableType
  | .list t => .list t.relocate
  | .named t => .named (t.relocate r)

end

theorem NullableType.span_relocate (t : NullableType) : (t.relocate r).span = t.span.relocate r := by
  cases t with
  | list t => cases t with | mk item span => rfl
  | named t => rfl

theorem TypeReference.relocate_ofNullable (t : NullableType) :
    (ofNullable t).relocate r = ofNullable (t.relocate r) := by
  cases t <;> rfl

/-! ## Selections -/

def Argument.relocate (a : Argument) : Argument :=
  ⟨a.name.relocate r, a.value.relocate r, a.span.relocate r⟩

def Directive.relocate (d : Directive) : Directive :=
  ⟨d.name.relocate r, d.arguments.map (Argument.relocate r), d.span.relocate r⟩

def Alias.relocate (a : Alias) : Alias := ⟨a.name.relocate r, a.span.relocate r⟩

def TypeCondition.relocate (t : TypeCondition) : TypeCondition :=
  ⟨t.namedType.relocate r, t.span.relocate r⟩

def FragmentSpread.relocate (s : FragmentSpread) : FragmentSpread :=
  ⟨s.name.relocate r, s.directives.map (Directive.relocate r), s.span.relocate r⟩

mutual

def SelectionSet.relocate : SelectionSet → SelectionSet
  | ⟨selections, span⟩ => ⟨Selection.relocateAll selections, span.relocate r⟩

def Selection.relocate : Selection → Selection
  | .field s => .field s.relocate
  | .fragmentSpread s => .fragmentSpread (s.relocate r)
  | .inlineFragment s => .inlineFragment s.relocate

def Field.relocate : Field → Field
  | ⟨responseAlias, name, arguments, directives, selectionSet, span⟩ =>
    ⟨responseAlias.map (Alias.relocate r), name.relocate r, arguments.map (Argument.relocate r),
      directives.map (Directive.relocate r), SelectionSet.relocateOptional selectionSet, span.relocate r⟩

def InlineFragment.relocate : InlineFragment → InlineFragment
  | ⟨typeCondition, directives, selectionSet, span⟩ =>
    ⟨typeCondition.map (TypeCondition.relocate r), directives.map (Directive.relocate r),
      selectionSet.relocate, span.relocate r⟩

def SelectionSet.relocateOptional : Option SelectionSet → Option SelectionSet
  | none => none
  | some s => some s.relocate

def Selection.relocateAll : List Selection → List Selection
  | [] => []
  | s :: ss => s.relocate :: Selection.relocateAll ss

end

theorem Selection.relocateAll_eq (ss : List Selection) :
    Selection.relocateAll r ss = ss.map (Selection.relocate r) := by
  induction ss with
  | nil => rfl
  | cons s ss ih => rw [Selection.relocateAll, ih, List.map_cons]

/-! ## Definitions -/

def VariableDefinition.relocate (d : VariableDefinition) : VariableDefinition :=
  ⟨d.declared.relocate r, d.type.relocate r, d.defaultValue.map (Value.relocate r), d.span.relocate r⟩

def OperationDefinition.relocate (o : OperationDefinition) : OperationDefinition :=
  ⟨o.kind, o.name.map (Name.relocate r), o.variableDefinitions.map (VariableDefinition.relocate r),
    o.directives.map (Directive.relocate r), o.selectionSet.relocate r, o.span.relocate r⟩

def FragmentDefinition.relocate (f : FragmentDefinition) : FragmentDefinition :=
  ⟨f.name.relocate r, f.typeCondition.relocate r, f.directives.map (Directive.relocate r),
    f.selectionSet.relocate r, f.span.relocate r⟩

def Definition.relocate : Definition → Definition
  | .fragment d => .fragment (d.relocate r)
  | .operation d => .operation (d.relocate r)

theorem Definition.span_relocate (d : Definition) : (d.relocate r).span = d.span.relocate r := by
  cases d <;> rfl

def Document.relocate (d : Document) : Document :=
  ⟨d.definitions.map (Definition.relocate r), d.span.relocate r⟩

/-! ## Constructs -/

namespace Construct

def relocate : Construct → Construct
  | document d => document (d.relocate r)
  | definition d => definition (d.relocate r)
  | operationDefinition d => operationDefinition (d.relocate r)
  | operationType k => operationType k
  | variableDefinitions ds => variableDefinitions (ds.map (VariableDefinition.relocate r))
  | variableDefinition d => variableDefinition (d.relocate r)
  | selectionSet s => selectionSet (s.relocate r)
  | selection s => selection (s.relocate r)
  | field f => field (f.relocate r)
  | responseAlias a => responseAlias (a.relocate r)
  | arguments as => arguments (as.map (Argument.relocate r))
  | argument a => argument (a.relocate r)
  | directives ds => directives (ds.map (Directive.relocate r))
  | directive d => directive (d.relocate r)
  | fragmentSpread s => fragmentSpread (s.relocate r)
  | fragmentName n => fragmentName (n.relocate r)
  | inlineFragment f => inlineFragment (f.relocate r)
  | fragmentDefinition d => fragmentDefinition (d.relocate r)
  | typeCondition t => typeCondition (t.relocate r)
  | type t => type (t.relocate r)
  | namedType t => namedType (t.relocate r)
  | listType t => listType (t.relocate r)
  | nonNullType t => nonNullType (t.relocate r)
  | value v => value (v.relocate r)
  | constValue v => constValue (v.relocate r)
  | booleanOrNullOrEnum v => booleanOrNullOrEnum (v.relocate r)
  | reference v => reference (v.relocate r)
  | listValue v => listValue (v.relocate r)
  | objectValue v => objectValue (v.relocate r)
  | intValue v => intValue (v.relocate r)
  | floatValue v => floatValue (v.relocate r)
  | stringValue v => stringValue (v.relocate r)
  | name n => name (n.relocate r)

/-- A construct without its spans. -/
def bare (c : Construct) : Construct := c.relocate .nowhere

end Construct

end GraphQLSyntax
