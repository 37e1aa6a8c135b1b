import GraphQLSyntax.Node.Definition
import GraphQLSyntax.Parser.Selection

/-!
# Parsing definitions and documents
-/

set_option autoImplicit false

namespace GraphQLSyntax.Parser

def optionalDefault : Parser (Option Value) := do
  if ← peekIs .equals then
    let _ ← next
    return some (← value .variableDefault)
  else return none

def variableDefinition : Parser VariableDefinition := do
  let declared ← reference
  let _ ← expect .colon
  let type ← typeReference
  let defaultValue ← optionalDefault
  return ⟨declared, type, defaultValue, ← spanFrom declared.span⟩

def variableDefinitions : Parser (List VariableDefinition) := do
  return (← enclosedSome .variableDefinitions variableDefinition).1

def optionalVariableDefinitions : Parser (List VariableDefinition) := do
  if ← peekIs .parenOpen then variableDefinitions else return []

def optionalName : Parser (Option Name) := do
  if ((← peekKind).bind TokenKind.nameText?).isSome then return some (← name) else return none

/-- The keyword of an operation, with its span. -/
def operationType : Parser (OperationKind × Span) := do
  match ← peekKind with
  | some (.name word) =>
    match OperationKind.ofKeyword? word with
    | some kind => return (kind, (← next).span)
    | none => unexpected .operationType
  | _ => unexpected .operationType

/-- An operation. A selection set alone is a query. -/
def operationDefinition : Parser OperationDefinition := do
  if ← peekIs .braceOpen then
    let selectionSet ← selectionSet
    return ⟨.query, none, [], [], selectionSet, selectionSet.span⟩
  let (kind, start) ← operationType
  let name ← optionalName
  let variableDefinitions ← optionalVariableDefinitions
  let directives ← optionalDirectives
  let selectionSet ← selectionSet
  return ⟨kind, name, variableDefinitions, directives, selectionSet, ← spanFrom start⟩

def fragmentDefinition : Parser FragmentDefinition := do
  let start ← expectWord "fragment"
  let name ← fragmentName
  let typeCondition ← typeCondition
  let directives ← optionalDirectives
  let selectionSet ← selectionSet
  return ⟨name, typeCondition, directives, selectionSet, ← spanFrom start⟩

/-- The definition of the type system that a keyword starts here, after a description or without. -/
def peekTypeSystem : Parser (Option DefinitionKind) := do
  let described := match ← peekKind with
    | some (.string _) => true
    | _ => false
  match ← peekKindNth (if described then 1 else 0) with
  | some (.name word) => return DefinitionKind.ofKeyword? word
  | _ => return none

def startsOperation : Parser Bool := do
  match ← peekKind with
  | some (.punctuator .braceOpen) => return true
  | some (.name word) => return (OperationKind.ofKeyword? word).isSome
  | _ => return false

def definition : Parser Definition := do
  if ← startsOperation then return .operation (← operationDefinition)
  if ← peekIsWord "fragment" then return .fragment (← fragmentDefinition)
  match ← peekTypeSystem with
  | some found =>
    throw ⟨found.description ++ " not allowed in executable document", ← peekSpan,
      .wrongDocumentKind found, []⟩
  | none => unexpected .definition

/-- One definition or more, up to the end of the input. -/
def document : Parser Document := do
  let first ← definition
  let others ← repeatWhile (do return !(← isAtEnd)) definition
  let last := others.getLast?.getD first
  return ⟨first :: others, first.span.join last.span⟩

end GraphQLSyntax.Parser
