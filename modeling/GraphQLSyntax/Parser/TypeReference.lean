import GraphQLSyntax.Node.TypeReference
import GraphQLSyntax.Parser.State

/-!
# Parsing type references
-/

set_option autoImplicit false

namespace GraphQLSyntax.Parser

/-- A named type. The word for null is a name but never a type's. -/
def namedType : Parser NamedType := do
  if (← peekKind) == some .null then
    throw ⟨"null is not an allowed named type", ← peekSpan, .reservedName "null" .namedType,
      [.spec "https://spec.graphql.org/October2021/#NamedType"]⟩
  let name ← name
  return ⟨name, name.span⟩

def listTypeOf (item : Parser TypeReference) : Parser ListType := do
  let opening ← openEnclosure .listType
  refuseEnd
  let item ← item
  closeEnclosure .listType
  return ⟨item, ← spanFrom opening⟩

def nullableTypeOf (item : Parser TypeReference) : Parser NullableType := do
  if ← peekIs .bracketOpen then return .list (← listTypeOf item)
  else return .named (← namedType)

def finishNonNull (inner : NullableType) : Parser NonNullType := do
  let _ ← expect .bang
  return ⟨inner, ← spanFrom inner.span⟩

def typeReferenceOf (item : Parser TypeReference) : Parser TypeReference := do
  let t ← nullableTypeOf item
  if ← peekIs .bang then return .nonNull (← finishNonNull t)
  else return .ofNullable t

/-- A type reference with room for some more levels of nesting. -/
def typeReferenceWithin : Nat → Parser TypeReference
  | 0 => tooDeep
  | room + 1 => nested (typeReferenceOf (typeReferenceWithin room))

def typeReference : Parser TypeReference :=
  typeReferenceWithin maxDepth

def listType : Parser ListType :=
  listTypeOf typeReference

def nonNullType : Parser NonNullType :=
  nested do finishNonNull (← nullableTypeOf typeReference)

end GraphQLSyntax.Parser
