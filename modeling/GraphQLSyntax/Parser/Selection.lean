import GraphQLSyntax.Node.Selection
import GraphQLSyntax.Parser.TypeReference
import GraphQLSyntax.Parser.Value

/-!
# Parsing selections
-/

set_option autoImplicit false

namespace GraphQLSyntax.Parser

def argument : Parser Argument := do
  let name ← name
  let _ ← expect .colon
  let value ← value .argument
  return ⟨name, value, ← spanFrom name.span⟩

def arguments (e : Enclosure) : Parser (List Argument) := do
  return (← enclosedSome e argument).1

def optionalArguments (e : Enclosure) : Parser (List Argument) := do
  if ← peekIs .parenOpen then arguments e else return []

def directive : Parser Directive := do
  let sign ← expect .atSign
  let name ← name
  let arguments ← optionalArguments .directiveArguments
  return ⟨name, arguments, ← spanFrom sign.span⟩

def directives : Parser (List Directive) := do
  let first ← directive
  return first :: (← repeatWhile (peekIs .atSign) directive)

def optionalDirectives : Parser (List Directive) := do
  if ← peekIs .atSign then directives else return []

def finishAlias (name : Name) : Parser Alias := do
  let _ ← expect .colon
  return ⟨name, ← spanFrom name.span⟩

def responseAlias : Parser Alias := do
  finishAlias (← name)

/-- The name of a fragment, which the word before a type condition cannot be. -/
def fragmentName : Parser Name := do
  if ← peekIsWord "on" then
    throw ⟨"fragment name cannot be `on`", ← peekSpan, .reservedName "on" .fragmentName,
      [.spec "https://spec.graphql.org/October2021/#FragmentName"]⟩
  name

def typeCondition : Parser TypeCondition := do
  let on ← expectWord "on"
  let namedType ← namedType
  return ⟨namedType, ← spanFrom on⟩

def fragmentSpread : Parser FragmentSpread := do
  let dots ← expect .ellipsis
  let name ← fragmentName
  let directives ← optionalDirectives
  return ⟨name, directives, ← spanFrom dots.span⟩

/-- The alias, if there is one, and the name of a field. -/
def fieldName : Parser (Option Alias × Name) := do
  let first ← name
  if ← peekIs .colon then
    let responseAlias ← finishAlias first
    return (some responseAlias, ← name)
  else return (none, first)

/-- A field up to its selection set. -/
def fieldHead : Parser Field := do
  let (responseAlias, name) ← fieldName
  let start := match responseAlias with
    | some a => a.span
    | none => name.span
  let arguments ← optionalArguments .fieldArguments
  let directives ← optionalDirectives
  return ⟨responseAlias, name, arguments, directives, none, ← spanFrom start⟩

def fieldOf (selectionSet : Parser SelectionSet) : Parser Field := do
  let head ← fieldHead
  if ← peekIs .braceOpen then
    let selectionSet ← selectionSet
    return { head with selectionSet := some selectionSet, span := ← spanFrom head.span }
  else return head

def optionalTypeCondition : Parser (Option TypeCondition) := do
  if ← peekIsWord "on" then return some (← typeCondition) else return none

def inlineFragmentOf (selectionSet : Parser SelectionSet) : Parser InlineFragment := do
  let dots ← expect .ellipsis
  let typeCondition ← optionalTypeCondition
  let directives ← optionalDirectives
  let selectionSet ← selectionSet
  return ⟨typeCondition, directives, selectionSet, ← spanFrom dots.span⟩

/-- Whether three dots start an inline fragment: a directive, a selection set, or a type condition,
which is the word for it and a name, follows them. -/
def startsInlineFragment : Parser Bool := do
  match ← peekKindNth 1 with
  | some (.punctuator .atSign) | some (.punctuator .braceOpen) => return true
  | some (.name word) =>
    if word = "on" then
      return ((← peekKindNth 2).bind TokenKind.nameText?).isSome
    else return false
  | _ => return false

def selectionOf (selectionSet : Parser SelectionSet) : Parser Selection := do
  if ← peekIs .ellipsis then
    if ← startsInlineFragment then return .inlineFragment (← inlineFragmentOf selectionSet)
    else return .fragmentSpread (← fragmentSpread)
  else return .field (← fieldOf selectionSet)

def selectionSetOf (selection : Parser Selection) : Parser SelectionSet := do
  let (selections, span) ← enclosedSome .selectionSet selection
  return ⟨selections, span⟩

/-- A selection set with room for some more levels of nesting. -/
def selectionSetWithin : Nat → Parser SelectionSet
  | 0 => tooDeep
  | room + 1 => nested (selectionSetOf (selectionOf (selectionSetWithin room)))

def selectionSet : Parser SelectionSet :=
  selectionSetWithin maxDepth

def selection : Parser Selection :=
  selectionOf selectionSet

def field : Parser Field :=
  fieldOf selectionSet

def inlineFragment : Parser InlineFragment :=
  inlineFragmentOf selectionSet

end GraphQLSyntax.Parser
