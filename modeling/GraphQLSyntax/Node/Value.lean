import GraphQLSyntax.Number.Binary64
import GraphQLSyntax.Source.Span

/-!
# Values

A value is a literal, a reference to a variable, or a list or object of values. Every node has the span
of the tokens it was read from.
-/

set_option autoImplicit false

namespace GraphQLSyntax

structure Name where
  value : String
  span : Span
  deriving DecidableEq, Repr

structure Variable where
  name : Name
  span : Span
  deriving DecidableEq, Repr

structure IntValue where
  value : Int
  span : Span
  deriving DecidableEq, Repr

structure FloatValue where
  value : Binary64
  span : Span
  deriving DecidableEq, Repr

structure StringValue where
  /-- The text the literal stands for. -/
  value : String
  /-- Whether the literal is written as a block string. -/
  isBlock : Bool
  span : Span
  deriving DecidableEq, Repr

structure BooleanValue where
  value : Bool
  span : Span
  deriving DecidableEq, Repr

structure NullValue where
  span : Span
  deriving DecidableEq, Repr

structure EnumValue where
  value : String
  span : Span
  deriving DecidableEq, Repr

mutual

inductive Value where
  | boolean (v : BooleanValue)
  | enum (v : EnumValue)
  | float (v : FloatValue)
  | int (v : IntValue)
  | list (v : ListValue)
  | null (v : NullValue)
  | object (v : ObjectValue)
  | string (v : StringValue)
  | reference (v : Variable)

structure ListValue where
  values : List Value
  span : Span

structure ObjectValue where
  fields : List ObjectField
  span : Span

structure ObjectField where
  name : Name
  value : Value
  span : Span

end

namespace Value

def span : Value → Span
  | boolean v => v.span
  | enum v => v.span
  | float v => v.span
  | int v => v.span
  | list v => v.span
  | null v => v.span
  | object v => v.span
  | string v => v.span
  | reference v => v.span

end Value

end GraphQLSyntax
