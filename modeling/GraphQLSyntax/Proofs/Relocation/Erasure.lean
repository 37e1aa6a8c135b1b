import GraphQLSyntax.Proofs.Printing.Erasure
import GraphQLSyntax.Proofs.Relocation.Node

/-!
# Erasure after relocation

Erasure forgets where a node stands, so a node that was moved is erased to what it would have been erased to before.
What does not depend on spans is the same for both.
-/

set_option autoImplicit false

namespace GraphQLSyntax

variable (r : Relocation)

mutual

theorem Value.erase_relocate (v : Value) : (v.relocate r).erase = v.erase := by
  cases v with
  | list v => exact congrArg Value.list v.erase_relocate
  | object v => exact congrArg Value.object v.erase_relocate
  | boolean | enum | float | int | null | string | reference => rfl

theorem ListValue.erase_relocate (v : ListValue) : (v.relocate r).erase = v.erase := by
  cases v with
  | mk values span => simp only [ListValue.relocate, ListValue.erase, Value.eraseAll_relocate values]

theorem ObjectValue.erase_relocate (v : ObjectValue) : (v.relocate r).erase = v.erase := by
  cases v with
  | mk fields span => simp only [ObjectValue.relocate, ObjectValue.erase, ObjectField.eraseAll_relocate fields]

theorem ObjectField.erase_relocate (f : ObjectField) : (f.relocate r).erase = f.erase := by
  cases f with
  | mk name value span =>
    simp only [ObjectField.relocate, ObjectField.erase, Value.erase_relocate value]
    rfl

theorem Value.eraseAll_relocate (vs : List Value) : Value.eraseAll (Value.relocateAll r vs) = Value.eraseAll vs := by
  cases vs with
  | nil => rfl
  | cons v vs => simp only [Value.relocateAll, Value.eraseAll, v.erase_relocate, Value.eraseAll_relocate vs]

theorem ObjectField.eraseAll_relocate (fs : List ObjectField) :
    ObjectField.eraseAll (ObjectField.relocateAll r fs) = ObjectField.eraseAll fs := by
  cases fs with
  | nil => rfl
  | cons f fs =>
    simp only [ObjectField.relocateAll, ObjectField.eraseAll, f.erase_relocate, ObjectField.eraseAll_relocate fs]

end

mutual

theorem TypeReference.erase_relocate (t : TypeReference) : (t.relocate r).erase = t.erase := by
  cases t with
  | list t => exact congrArg TypeReference.list t.erase_relocate
  | named t => rfl
  | nonNull t => exact congrArg TypeReference.nonNull t.erase_relocate

theorem ListType.erase_relocate (t : ListType) : (t.relocate r).erase = t.erase := by
  cases t with
  | mk item span => simp only [ListType.relocate, ListType.erase, item.erase_relocate]

theorem NonNullType.erase_relocate (t : NonNullType) : (t.relocate r).erase = t.erase := by
  cases t with
  | mk inner span => simp only [NonNullType.relocate, NonNullType.erase, inner.erase_relocate]

theorem NullableType.erase_relocate (t : NullableType) : (t.relocate r).erase = t.erase := by
  cases t with
  | list t => exact congrArg NullableType.list t.erase_relocate
  | named t => rfl

end

/-! ## Selections -/

theorem Argument.erase_relocate (a : Argument) : (a.relocate r).erase = a.erase := by
  simp only [relocate, erase, Value.erase_relocate]
  rfl

theorem Directive.erase_relocate (d : Directive) : (d.relocate r).erase = d.erase := by
  simp only [relocate, erase, map_erase (Argument.erase_relocate r)]
  rfl

theorem FragmentSpread.erase_relocate (s : FragmentSpread) : (s.relocate r).erase = s.erase := by
  simp only [relocate, erase, map_erase (Directive.erase_relocate r)]
  rfl

mutual

theorem SelectionSet.erase_relocate (s : SelectionSet) : (s.relocate r).erase = s.erase := by
  cases s with
  | mk selections span => simp only [SelectionSet.relocate, SelectionSet.erase, Selection.eraseAll_relocate selections]

theorem Selection.erase_relocate (s : Selection) : (s.relocate r).erase = s.erase := by
  cases s with
  | field s => exact congrArg Selection.field s.erase_relocate
  | fragmentSpread s => exact congrArg Selection.fragmentSpread (s.erase_relocate r)
  | inlineFragment s => exact congrArg Selection.inlineFragment s.erase_relocate

theorem Field.erase_relocate (f : Field) : (f.relocate r).erase = f.erase := by
  cases f with
  | mk responseAlias name arguments directives selectionSet span =>
    simp only [Field.relocate, Field.erase, Option.map_map, map_erase (Argument.erase_relocate r),
      map_erase (Directive.erase_relocate r), SelectionSet.eraseOptional_relocate selectionSet]
    rfl

theorem InlineFragment.erase_relocate (f : InlineFragment) : (f.relocate r).erase = f.erase := by
  cases f with
  | mk typeCondition directives selectionSet span =>
    simp only [InlineFragment.relocate, InlineFragment.erase, Option.map_map, map_erase (Directive.erase_relocate r),
      selectionSet.erase_relocate]
    rfl

theorem SelectionSet.eraseOptional_relocate (s : Option SelectionSet) :
    SelectionSet.eraseOptional (SelectionSet.relocateOptional r s) = SelectionSet.eraseOptional s := by
  cases s with
  | none => rfl
  | some s => exact congrArg some s.erase_relocate

theorem Selection.eraseAll_relocate (ss : List Selection) :
    Selection.eraseAll (Selection.relocateAll r ss) = Selection.eraseAll ss := by
  cases ss with
  | nil => rfl
  | cons s ss => simp only [Selection.relocateAll, Selection.eraseAll, s.erase_relocate, Selection.eraseAll_relocate ss]

end

/-! ## Definitions -/

theorem VariableDefinition.erase_relocate (d : VariableDefinition) : (d.relocate r).erase = d.erase := by
  have hDefault : (d.defaultValue.map (Value.relocate r)).map Value.erase = d.defaultValue.map Value.erase := by
    rw [Option.map_map]
    exact congrArg (Option.map · d.defaultValue) (funext fun v => v.erase_relocate r)
  simp only [relocate, erase, TypeReference.erase_relocate, hDefault]
  rfl

theorem OperationDefinition.erase_relocate (o : OperationDefinition) : (o.relocate r).erase = o.erase := by
  simp only [relocate, erase, Option.map_map, map_erase (VariableDefinition.erase_relocate r),
    map_erase (Directive.erase_relocate r), SelectionSet.erase_relocate]
  rfl

theorem FragmentDefinition.erase_relocate (f : FragmentDefinition) : (f.relocate r).erase = f.erase := by
  simp only [relocate, erase, map_erase (Directive.erase_relocate r), SelectionSet.erase_relocate]
  rfl

theorem Definition.erase_relocate (d : Definition) : (d.relocate r).erase = d.erase := by
  cases d with
  | fragment d => exact congrArg Definition.fragment (d.erase_relocate r)
  | operation d => exact congrArg Definition.operation (d.erase_relocate r)

theorem Definition.print_relocate (d : Definition) : (d.relocate r).print = d.print := by
  rw [← (d.relocate r).print_erase, d.erase_relocate, d.print_erase]

end GraphQLSyntax
