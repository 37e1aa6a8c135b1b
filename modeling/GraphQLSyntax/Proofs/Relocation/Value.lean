import GraphQLSyntax.Parser.TypeReference
import GraphQLSyntax.Parser.Value
import GraphQLSyntax.Proofs.Relocation.Parser

/-!
# Values and type references elsewhere
-/

set_option autoImplicit false

namespace GraphQLSyntax.Parser

variable (r : Relocation)

/-! ## Literals -/

theorem relocates_reference : Relocates r (Variable.relocate r) reference := by
  apply (relocates_expect r .dollar).bind
  intro dollar
  apply (relocates_name r).bind
  intro name
  exact (follows_spanFrom r dollar.span).map fun _ => rfl

/-- What a token that was read is taken for, or why it is refused. -/
theorem relocates_literal {α : Type} {g : α → α} {f : Token → Parser α}
    (hRead : ∀ t, (∃ a, f t = pure a ∧ f (t.relocate r) = pure (g a)) ∨
      ∃ e, f t = throw e ∧ f (t.relocate r) = throw (e.relocate r)) : Relocates r g (next >>= f) := by
  apply (relocates_next r).bind
  intro t
  obtain ⟨a, hHere, hThere⟩ | ⟨e, hHere, hThere⟩ := hRead t
  · rw [hHere, hThere]
    exact .pure a
  · rw [hHere, hThere]
    exact follows_throw e

theorem relocates_booleanNullOrEnum : Relocates r (Value.relocate r) booleanNullOrEnum := by
  apply relocates_literal
  rintro ⟨kind, span⟩
  cases kind with
  | boolean | null | name => exact .inl ⟨_, rfl, rfl⟩
  | _ => exact .inr ⟨_, rfl, rfl⟩

theorem relocates_intValue : Relocates r (IntValue.relocate r) intValue := by
  apply relocates_literal
  rintro ⟨kind, span⟩
  cases kind with
  | int raw =>
    simp only [Token.relocate]
    cases readInt64 raw.toList with
    | ok value => exact .inl ⟨_, rfl, rfl⟩
    | error fault => exact .inr ⟨_, rfl, rfl⟩
  | _ => exact .inr ⟨_, rfl, rfl⟩

theorem relocates_floatValue : Relocates r (FloatValue.relocate r) floatValue := by
  apply relocates_literal
  rintro ⟨kind, span⟩
  cases kind with
  | float raw =>
    simp only [Token.relocate]
    cases (Binary64.ofText? raw.toList).filter Binary64.isFinite with
    | some value => exact .inl ⟨_, rfl, rfl⟩
    | none => exact .inr ⟨_, rfl, rfl⟩
  | _ => exact .inr ⟨_, rfl, rfl⟩

theorem relocates_stringValue : Relocates r (StringValue.relocate r) stringValue := by
  apply relocates_literal
  rintro ⟨kind, span⟩
  cases kind with
  | string raw =>
    simp only [Token.relocate]
    cases decodeStringLiteral raw with
    | ok value => exact .inl ⟨_, rfl, rfl⟩
    | error fault => exact .inr ⟨_, rfl, rfl⟩
  | _ => exact .inr ⟨_, rfl, rfl⟩

/-! ## Lists and objects -/

section

variable {r} {item : Parser Value} (hItem : Relocates r (Value.relocate r) item)

include hItem

theorem relocates_listValueOf : Relocates r (ListValue.relocate r) (listValueOf item) := by
  apply (relocates_enclosed .listValue hItem).map
  rintro ⟨values, span⟩
  rw [ListValue.relocate, Value.relocateAll_eq]
  rfl

theorem relocates_objectFieldOf : Relocates r (ObjectField.relocate r) (objectFieldOf item) := by
  apply (relocates_name r).bind
  intro name
  apply (relocates_expect r .colon).bind
  intro _
  apply hItem.bind
  intro value
  exact (follows_spanFrom r name.span).map fun _ => rfl

theorem relocates_objectValueOf : Relocates r (ObjectValue.relocate r) (objectValueOf item) := by
  apply (relocates_enclosed .objectValue (relocates_objectFieldOf hItem)).map
  rintro ⟨fields, span⟩
  rw [ObjectValue.relocate, ObjectField.relocateAll_eq]
  rfl

theorem relocates_valueOf (context : ValueContext) :
    Relocates r (Value.relocate r) (valueOf context item) := by
  apply (relocates_peekKind r).bind
  intro kind
  cases kind with
  | none => exact relocates_unexpected r _ _
  | some kind =>
    cases kind with
    | int => exact (relocates_intValue r).map fun _ => rfl
    | float => exact (relocates_floatValue r).map fun _ => rfl
    | string => exact (relocates_stringValue r).map fun _ => rfl
    | boolean | null | name => exact relocates_booleanNullOrEnum r
    | endOfInput | error => exact relocates_unexpected r _ _
    | punctuator p =>
      cases p with
      | bracketOpen => exact (relocates_listValueOf hItem).map fun _ => rfl
      | braceOpen => exact (relocates_objectValueOf hItem).map fun _ => rfl
      | dollar =>
        cases context with
        | argument => exact (relocates_reference r).map fun _ => rfl
        | constant | variableDefault => exact (relocates_peekSpan r).throwHere fun _ => rfl
      | _ => exact relocates_unexpected r _ _

end

theorem relocates_valueWithin (context : ValueContext) (room : Nat) :
    Relocates r (Value.relocate r) (valueWithin context room) := by
  induction room with
  | zero => exact relocates_tooDeep
  | succ room ih => exact relocates_nested (relocates_valueOf ih context)

theorem relocates_value (context : ValueContext) : Relocates r (Value.relocate r) (value context) :=
  relocates_valueWithin r context maxDepth

/-! ## Type references -/

theorem relocates_namedType : Relocates r (NamedType.relocate r) namedType := by
  apply (relocates_peekKind r).bind
  intro kind
  dsimp only [id_eq]
  cases kind == some .null with
  | true => exact (relocates_peekSpan r).throwHere fun _ => rfl
  | false => exact (relocates_name r).map fun _ => rfl

section

variable {r} {item : Parser TypeReference} (hItem : Relocates r (TypeReference.relocate r) item)

include hItem

theorem relocates_listTypeOf : Relocates r (ListType.relocate r) (listTypeOf item) := by
  apply (relocates_openEnclosure r .listType).bind
  intro opening
  apply (relocates_refuseEnd r).bind
  intro _
  apply hItem.bind
  intro item
  apply (relocates_closeEnclosure r .listType).bind
  intro _
  exact (follows_spanFrom r opening).map fun _ => rfl

theorem relocates_nullableTypeOf : Relocates r (NullableType.relocate r) (nullableTypeOf item) := by
  apply (relocates_peekIs r .bracketOpen).bind
  intro isList
  exact .ite ((relocates_listTypeOf hItem).map fun _ => rfl) ((relocates_namedType r).map fun _ => rfl)

end

theorem follows_finishNonNull (inner : NullableType) :
    Follows r (NonNullType.relocate r) (finishNonNull inner) (finishNonNull (inner.relocate r)) := by
  apply (relocates_expect r .bang).bind
  intro _
  rw [NullableType.span_relocate]
  exact (follows_spanFrom r inner.span).map fun _ => rfl

theorem relocates_typeReferenceOf {item : Parser TypeReference}
    (hItem : Relocates r (TypeReference.relocate r) item) :
    Relocates r (TypeReference.relocate r) (typeReferenceOf item) := by
  apply (relocates_nullableTypeOf hItem).bind
  intro t
  apply (relocates_peekIs r .bang).bind
  intro isNonNull
  have hNullable : Follows r (TypeReference.relocate r) (pure (.ofNullable t))
      (pure (.ofNullable (t.relocate r))) := by
    rw [← TypeReference.relocate_ofNullable]
    exact .pure (TypeReference.ofNullable t)
  exact .ite ((follows_finishNonNull r t).map fun _ => rfl) hNullable

theorem relocates_typeReferenceWithin (room : Nat) :
    Relocates r (TypeReference.relocate r) (typeReferenceWithin room) := by
  induction room with
  | zero => exact relocates_tooDeep
  | succ room ih => exact relocates_nested (relocates_typeReferenceOf r ih)

theorem relocates_typeReference : Relocates r (TypeReference.relocate r) typeReference :=
  relocates_typeReferenceWithin r maxDepth

theorem relocates_nonNullType : Relocates r (NonNullType.relocate r) nonNullType := by
  apply relocates_nested
  apply (relocates_nullableTypeOf (relocates_typeReference r)).bind
  intro t
  exact follows_finishNonNull r t

end GraphQLSyntax.Parser
