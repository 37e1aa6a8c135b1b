import GraphQLSyntax.Construct

/-!
# Nesting

How many values, type references and selection sets of a node lie inside each other at most. A type
reference counts with its exclamation mark as one. A part that is no value, type reference or selection
set itself is as deep as the deepest of what it holds.
-/

set_option autoImplicit false

namespace GraphQLSyntax

def deepest {α : Type} (nesting : α → Nat) : List α → Nat
  | [] => 0
  | a :: as => max (nesting a) (deepest nesting as)

def optionalNesting {α : Type} (nesting : α → Nat) : Option α → Nat
  | none => 0
  | some a => nesting a

mutual

/-- The nesting of what a value holds. -/
def Value.inside : Value → Nat
  | .list v => v.nesting
  | .object v => v.nesting
  | .boolean _ | .enum _ | .float _ | .int _ | .null _ | .string _ | .reference _ => 0

def ListValue.nesting : ListValue → Nat
  | ⟨values, _⟩ => Value.deepestOf values

def ObjectValue.nesting : ObjectValue → Nat
  | ⟨fields, _⟩ => ObjectField.deepestOf fields

def ObjectField.nesting : ObjectField → Nat
  | ⟨_, value, _⟩ => value.inside + 1

def Value.deepestOf : List Value → Nat
  | [] => 0
  | v :: vs => max (v.inside + 1) (Value.deepestOf vs)

def ObjectField.deepestOf : List ObjectField → Nat
  | [] => 0
  | f :: fs => max f.nesting (ObjectField.deepestOf fs)

end

def Value.nesting (v : Value) : Nat := v.inside + 1

mutual

def TypeReference.inside : TypeReference → Nat
  | .list t => t.nesting
  | .named _ => 0
  | .nonNull t => t.inside

def ListType.nesting : ListType → Nat
  | ⟨item, _⟩ => item.inside + 1

def NonNullType.inside : NonNullType → Nat
  | ⟨inner, _⟩ => inner.nesting

def NullableType.nesting : NullableType → Nat
  | .list t => t.nesting
  | .named _ => 0

end

def TypeReference.nesting (t : TypeReference) : Nat := t.inside + 1

def NonNullType.nesting (t : NonNullType) : Nat := t.inside + 1

def Argument.nesting (a : Argument) : Nat := a.value.nesting

def Directive.nesting (d : Directive) : Nat := deepest Argument.nesting d.arguments

def FragmentSpread.nesting (s : FragmentSpread) : Nat := deepest Directive.nesting s.directives

mutual

def SelectionSet.inside : SelectionSet → Nat
  | ⟨selections, _⟩ => Selection.deepestOf selections

def Selection.nesting : Selection → Nat
  | .field s => s.nesting
  | .fragmentSpread s => s.nesting
  | .inlineFragment s => s.nesting

def Field.nesting : Field → Nat
  | ⟨_, _, arguments, directives, selectionSet, _⟩ =>
    max (max (deepest Argument.nesting arguments) (deepest Directive.nesting directives))
      (SelectionSet.optionalNesting selectionSet)

def InlineFragment.nesting : InlineFragment → Nat
  | ⟨_, directives, selectionSet, _⟩ =>
    max (deepest Directive.nesting directives) (selectionSet.inside + 1)

def SelectionSet.optionalNesting : Option SelectionSet → Nat
  | none => 0
  | some s => s.inside + 1

def Selection.deepestOf : List Selection → Nat
  | [] => 0
  | s :: ss => max s.nesting (Selection.deepestOf ss)

end

def SelectionSet.nesting (s : SelectionSet) : Nat := s.inside + 1

def VariableDefinition.nesting (d : VariableDefinition) : Nat :=
  max d.type.nesting (optionalNesting Value.nesting d.defaultValue)

def OperationDefinition.nesting (o : OperationDefinition) : Nat :=
  max (max (deepest VariableDefinition.nesting o.variableDefinitions)
    (deepest Directive.nesting o.directives)) o.selectionSet.nesting

def FragmentDefinition.nesting (f : FragmentDefinition) : Nat :=
  max (deepest Directive.nesting f.directives) f.selectionSet.nesting

def Definition.nesting : Definition → Nat
  | .fragment d => d.nesting
  | .operation d => d.nesting

def Document.nesting (d : Document) : Nat := deepest Definition.nesting d.definitions

def Construct.nesting : Construct → Nat
  | document d => d.nesting
  | definition d => d.nesting
  | operationDefinition d => d.nesting
  | operationType _ => 0
  | variableDefinitions ds => deepest VariableDefinition.nesting ds
  | variableDefinition d => d.nesting
  | selectionSet s => s.nesting
  | selection s => s.nesting
  | field f => f.nesting
  | responseAlias _ => 0
  | arguments as => deepest Argument.nesting as
  | argument a => a.nesting
  | directives ds => deepest Directive.nesting ds
  | directive d => d.nesting
  | fragmentSpread s => s.nesting
  | fragmentName _ => 0
  | inlineFragment f => f.nesting
  | fragmentDefinition d => d.nesting
  | typeCondition _ => 0
  | type t => t.nesting
  | namedType _ => 0
  | listType t => t.nesting
  | nonNullType t => t.nesting
  | value v => v.nesting
  | constValue v => v.nesting
  | booleanOrNullOrEnum _ => 0
  | reference _ => 0
  | listValue v => v.nesting
  | objectValue v => v.nesting
  | intValue _ => 0
  | floatValue _ => 0
  | stringValue _ => 0
  | name _ => 0

theorem ofNullable_inside (t : NullableType) : (TypeReference.ofNullable t).inside = t.nesting := by
  cases t <;> rfl

/-! ## Lists -/

theorem Value.deepestOf_eq (vs : List Value) : Value.deepestOf vs = deepest Value.nesting vs := by
  induction vs with
  | nil => rfl
  | cons v vs ih => rw [Value.deepestOf, ih, deepest, Value.nesting]

theorem ObjectField.deepestOf_eq (fs : List ObjectField) :
    ObjectField.deepestOf fs = deepest ObjectField.nesting fs := by
  induction fs with
  | nil => rfl
  | cons f fs ih => rw [ObjectField.deepestOf, ih, deepest]

theorem Selection.deepestOf_eq (ss : List Selection) :
    Selection.deepestOf ss = deepest Selection.nesting ss := by
  induction ss with
  | nil => rfl
  | cons s ss ih => rw [Selection.deepestOf, ih, deepest]

theorem deepest_append {α : Type} (nesting : α → Nat) (as bs : List α) :
    deepest nesting (as ++ bs) = max (deepest nesting as) (deepest nesting bs) := by
  induction as with
  | nil => exact (Nat.zero_max _).symm
  | cons a as ih => rw [List.cons_append, deepest, ih, deepest, Nat.max_assoc]

end GraphQLSyntax
