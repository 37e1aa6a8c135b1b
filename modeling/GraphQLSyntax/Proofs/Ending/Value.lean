import GraphQLSyntax.Proofs.Ending.Parser
import GraphQLSyntax.Proofs.Parsing.Value
import GraphQLSyntax.Proofs.Parsing.TypeReference

/-!
# Values and type references before the end of the input

Literals are consumed before anything is checked, and may consume the token that marks the end. All other productions
look first.
-/

set_option autoImplicit false

namespace GraphQLSyntax.Parser

variable {E : Endings}

/-! ## Literals -/

theorem agrees_reference : Agrees E reference := by
  apply (agrees_expect .dollar).bind
  intro dollar
  apply agrees_name.bind
  intro name
  exact (agrees_spanFrom dollar.span).map _

theorem agrees_booleanNullOrEnum : Agrees E booleanNullOrEnum := by
  refine agrees_literal .booleanNullOrEnum ?_ fun _ => rfl
  rintro ⟨kind, span⟩
  cases kind with
  | boolean | null | name => exact .pure _
  | _ => exact agrees_throw _

theorem agrees_intValue : Agrees E intValue := by
  refine agrees_literal .integer ?_ fun _ => rfl
  rintro ⟨kind, span⟩
  cases kind with
  | int raw =>
    dsimp only
    cases readInt64 raw.toList with
    | ok value => exact .pure _
    | error fault => exact agrees_throw _
  | _ => exact agrees_throw _

theorem agrees_floatValue : Agrees E floatValue := by
  refine agrees_literal .float ?_ fun _ => rfl
  rintro ⟨kind, span⟩
  cases kind with
  | float raw =>
    dsimp only
    cases (Binary64.ofText? raw.toList).filter Binary64.isFinite with
    | some value => exact .pure _
    | none => exact agrees_throw _
  | _ => exact agrees_throw _

theorem agrees_stringValue : Agrees E stringValue := by
  refine agrees_literal .string ?_ fun _ => rfl
  rintro ⟨kind, span⟩
  cases kind with
  | string raw =>
    dsimp only
    cases decodeStringLiteral raw with
    | ok value => exact .pure _
    | error fault => exact agrees_throw _
  | _ => exact agrees_throw _

/-! ## Lists and objects -/

section

variable {item : Parser Value} (hItem : Agrees E item)

include hItem

theorem agrees_objectFieldOf : Agrees E (objectFieldOf item) := by
  apply agrees_name.bind
  intro name
  apply (agrees_expect .colon).bind
  intro _
  apply hItem.bind
  intro value
  exact (agrees_spanFrom name.span).map _

variable {room : Nat} {D : Production Value} {P : TokenKind → Prop}
  (hImplements : Implements room item D [] Value.nesting) (hFirst : StartsWith D P)

include hImplements

theorem agrees_objectValueOf : Agrees E (objectValueOf item) :=
  (agrees_enclosed .objectValue (agrees_objectFieldOf hItem)
    ((implements_objectFieldOf hImplements).consumes objectField_startsWith)).map _

include hFirst

theorem agrees_listValueOf : Agrees E (listValueOf item) :=
  (agrees_enclosed .listValue hItem (hImplements.consumes hFirst)).map _

theorem agrees_valueOf (context : ValueContext) : Agrees E (valueOf context item) := by
  apply agrees_onKindOnly rfl
  intro kind
  cases kind with
  | none => exact agrees_unexpected _
  | some kind =>
    cases kind with
    | int => exact agrees_intValue.map _
    | float => exact agrees_floatValue.map _
    | string => exact agrees_stringValue.map _
    | boolean | null | name => exact agrees_booleanNullOrEnum
    | endOfInput | error => exact agrees_unexpected _
    | punctuator p =>
      cases p with
      | bracketOpen => exact (agrees_listValueOf hItem hImplements hFirst).map _
      | braceOpen => exact (agrees_objectValueOf hItem hImplements).map _
      | dollar =>
        cases context with
        | argument => exact agrees_reference.map _
        | constant | variableDefault => exact agrees_throwHere fun _ _ => rfl
      | _ => exact agrees_unexpected _

end

theorem agrees_valueWithin (context : ValueContext) (room : Nat) : Agrees E (valueWithin context room) := by
  induction room with
  | zero => exact agrees_tooDeep
  | succ room ih =>
    exact agrees_nested (agrees_valueOf ih (implements_valueWithin context room) (value_startsWith _) context)

theorem agrees_value (context : ValueContext) : Agrees E (value context) := agrees_valueWithin context maxDepth

/-! ## Type references -/

theorem agrees_namedType : Agrees E namedType := by
  apply agrees_onKindOnly rfl
  intro kind
  cases kind == some .null with
  | true => exact agrees_throwHere fun _ _ => rfl
  | false => exact agrees_name.map _

section

variable {item : Parser TypeReference} (hItem : Agrees E item)

include hItem

theorem agrees_listTypeOf : Agrees E (listTypeOf item) := by
  apply (agrees_openEnclosure .listType).bind
  intro opening
  apply agrees_refuseEnd.bind
  intro _
  apply hItem.bind
  intro item
  apply (agrees_closeEnclosure .listType).bind
  intro _
  exact (agrees_spanFrom opening).map _

theorem agrees_nullableTypeOf : Agrees E (nullableTypeOf item) := by
  apply (agrees_peekIs .bracketOpen).bind
  intro isList
  exact .ite ((agrees_listTypeOf hItem).map _) (agrees_namedType.map _)

end

theorem agrees_finishNonNull (inner : NullableType) : Agrees E (finishNonNull inner) := by
  apply (agrees_expect .bang).bind
  intro _
  exact (agrees_spanFrom inner.span).map _

theorem agrees_typeReferenceOf {item : Parser TypeReference} (hItem : Agrees E item) :
    Agrees E (typeReferenceOf item) := by
  apply (agrees_nullableTypeOf hItem).bind
  intro t
  apply (agrees_peekIs .bang).bind
  intro isNonNull
  exact .ite ((agrees_finishNonNull t).map _) (.pure _)

theorem agrees_typeReferenceWithin (room : Nat) : Agrees E (typeReferenceWithin room) := by
  induction room with
  | zero => exact agrees_tooDeep
  | succ room ih => exact agrees_nested (agrees_typeReferenceOf ih)

theorem agrees_typeReference : Agrees E typeReference := agrees_typeReferenceWithin maxDepth

theorem agrees_nonNullType : Agrees E nonNullType := by
  apply agrees_nested
  apply (agrees_nullableTypeOf agrees_typeReference).bind
  exact agrees_finishNonNull

end GraphQLSyntax.Parser
