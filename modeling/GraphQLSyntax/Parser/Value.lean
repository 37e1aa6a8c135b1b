import GraphQLSyntax.Node.Value
import GraphQLSyntax.Number.Integer
import GraphQLSyntax.Parser.State
import GraphQLSyntax.StringLiteral.Decode

/-!
# Parsing values
-/

set_option autoImplicit false

namespace GraphQLSyntax

/-- Where a value stands, which decides whether it may refer to variables. -/
inductive ValueContext where
  | argument
  | constant
  | variableDefault
  deriving DecidableEq, Repr

/-- The name of a context without variables. -/
def ValueContext.constantName? : ValueContext → Option String
  | argument => none
  | constant => some "constant values"
  | variableDefault => some "variable default values"

namespace Parser

def reference : Parser Variable := do
  let dollar ← expect .dollar
  let name ← name
  return ⟨name, ← spanFrom dollar.span⟩

/-- A boolean, null, or a name, which is an enum value. -/
def booleanNullOrEnum : Parser Value := do
  let token ← next
  match token.kind with
  | .boolean value => return .boolean ⟨value, token.span⟩
  | .null => return .null ⟨token.span⟩
  | .name text => return .enum ⟨text, token.span⟩
  | _ => throw (.unexpected token .booleanNullOrEnum)

def intValue : Parser IntValue := do
  let token ← next
  match token.kind with
  | .int raw =>
    match readInt64 raw.toList with
    | .ok value => return ⟨value, token.span⟩
    | .error _ =>
      throw ⟨"integer `" ++ raw ++ "` overflows 64-bit integer", token.span,
        .invalidValue (.int raw), []⟩
  | _ => throw (.unexpected token .integer)

/-- A float literal whose nearest number is finite. -/
def floatValue : Parser FloatValue := do
  let token ← next
  match token.kind with
  | .float raw =>
    match (Binary64.ofText? raw.toList).filter Binary64.isFinite with
    | some value => return ⟨value, token.span⟩
    | none =>
      throw ⟨"float `" ++ raw ++ "` is not a finite number", token.span,
        .invalidValue (.float raw), []⟩
  | _ => throw (.unexpected token .float)

def stringValue : Parser StringValue := do
  let token ← next
  match token.kind with
  | .string raw =>
    match decodeStringLiteral raw with
    | .ok value => return ⟨value, isBlockLiteral raw, token.span⟩
    | .error fault =>
      throw ⟨"invalid string literal: " ++ fault.message, token.span,
        .invalidValue (.string fault), []⟩
  | _ => throw (.unexpected token .string)

def listValueOf (item : Parser Value) : Parser ListValue := do
  let (values, span) ← enclosed .listValue item
  return ⟨values, span⟩

def objectFieldOf (item : Parser Value) : Parser ObjectField := do
  let name ← name
  let _ ← expect .colon
  let value ← item
  return ⟨name, value, ← spanFrom name.span⟩

def objectValueOf (item : Parser Value) : Parser ObjectValue := do
  let (fields, span) ← enclosed .objectValue (objectFieldOf item)
  return ⟨fields, span⟩

/-- A value, given how the values inside it are parsed. -/
def valueOf (context : ValueContext) (item : Parser Value) : Parser Value := do
  match ← peekKind with
  | some (.punctuator .dollar) =>
    match context.constantName? with
    | some place =>
      throw ⟨"variables are not allowed in " ++ place, ← peekSpan, .invalidSyntax, []⟩
    | none => return .reference (← reference)
  | some (.int _) => return .int (← intValue)
  | some (.float _) => return .float (← floatValue)
  | some (.string _) => return .string (← stringValue)
  | some (.boolean _) | some .null | some (.name _) => booleanNullOrEnum
  | some (.punctuator .bracketOpen) => return .list (← listValueOf item)
  | some (.punctuator .braceOpen) => return .object (← objectValueOf item)
  | _ => unexpected .value

/-- A value with room for some more levels of nesting. -/
def valueWithin (context : ValueContext) : Nat → Parser Value
  | 0 => tooDeep
  | room + 1 => nested (valueOf context (valueWithin context room))

def value (context : ValueContext) : Parser Value :=
  valueWithin context maxDepth

def listValue : Parser ListValue :=
  listValueOf (value .argument)

def objectValue : Parser ObjectValue :=
  objectValueOf (value .argument)

end Parser

end GraphQLSyntax
