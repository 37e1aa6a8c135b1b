import GraphQLSyntax.Diagnostic.ParseError
import GraphQLSyntax.Token.Basic

/-!
# Enclosures

What stands between an opening and a closing punctuator.
-/

set_option autoImplicit false

namespace GraphQLSyntax

inductive Enclosure where
  | selectionSet
  | fieldArguments
  | directiveArguments
  | variableDefinitions
  | listType
  | listValue
  | objectValue
  deriving DecidableEq, Repr

namespace Enclosure

def description : Enclosure → String
  | selectionSet => "selection set"
  | fieldArguments => "field arguments"
  | directiveArguments => "directive arguments"
  | variableDefinitions => "variable definitions"
  | listType => "list type annotation"
  | listValue => "list value"
  | objectValue => "object value"

def opening : Enclosure → Punctuator
  | selectionSet | objectValue => .braceOpen
  | fieldArguments | directiveArguments | variableDefinitions => .parenOpen
  | listType | listValue => .bracketOpen

def closing : Enclosure → Punctuator
  | selectionSet | objectValue => .braceClose
  | fieldArguments | directiveArguments | variableDefinitions => .parenClose
  | listType | listValue => .bracketClose

/-- The name of an enclosure as a construct that must not be empty. -/
def constructName : Enclosure → String
  | fieldArguments | directiveArguments => "argument list"
  | e => e.description

/-- The error of an empty enclosure. Parentheses could have been left out. -/
def emptyError (e : Enclosure) (span : Span) : ParseError :=
  let remedy := if e.opening = .parenOpen then "; omit the parentheses instead" else ""
  ⟨e.constructName ++ " cannot be empty" ++ remedy, span, .emptyConstruct e.constructName, []⟩

end Enclosure

/-- An opening punctuator that is not closed yet. -/
structure Opener where
  span : Span
  enclosure : Enclosure
  deriving DecidableEq, Repr

/-- The error of an enclosure that the input's end leaves open. Its note points at the opener. -/
def Opener.unclosedError (o : Opener) (endSpan : Span) : ParseError :=
  let delimiter := o.enclosure.opening.text
  ⟨"unclosed `" ++ delimiter ++ "`", endSpan, .unclosedDelimiter delimiter,
    [.generalAt ("opening `" ++ delimiter ++ "` in " ++ o.enclosure.description ++ " here") o.span]⟩

end GraphQLSyntax
