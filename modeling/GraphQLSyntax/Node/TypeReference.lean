import GraphQLSyntax.Node.Value

/-!
# Type references

A type reference is a name, or a list of some type, and either may be non-null.
-/

set_option autoImplicit false

namespace GraphQLSyntax

structure NamedType where
  name : Name
  span : Span
  deriving DecidableEq, Repr

mutual

inductive TypeReference where
  | list (t : ListType)
  | named (t : NamedType)
  | nonNull (t : NonNullType)

structure ListType where
  item : TypeReference
  span : Span

structure NonNullType where
  inner : NullableType
  span : Span

inductive NullableType where
  | list (t : ListType)
  | named (t : NamedType)

end

def NullableType.span : NullableType → Span
  | .list t => t.span
  | .named t => t.span

namespace TypeReference

def ofNullable : NullableType → TypeReference
  | .list t => .list t
  | .named t => .named t

def span : TypeReference → Span
  | list t => t.span
  | named t => t.span
  | nonNull t => t.span

def isNonNull : TypeReference → Bool
  | nonNull _ => true
  | _ => false

/-- The name inside all lists. -/
def innermost : TypeReference → NamedType
  | list ⟨item, _⟩ => item.innermost
  | named t => t
  | nonNull ⟨.list ⟨item, _⟩, _⟩ => item.innermost
  | nonNull ⟨.named t, _⟩ => t

end TypeReference

end GraphQLSyntax
