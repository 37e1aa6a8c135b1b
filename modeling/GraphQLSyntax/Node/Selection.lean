import GraphQLSyntax.Node.TypeReference

/-!
# Selections

A selection set holds fields, spreads of named fragments, and inline fragments. Fields and inline
fragments may have selection sets of their own.
-/

set_option autoImplicit false

namespace GraphQLSyntax

structure Argument where
  name : Name
  value : Value
  span : Span

structure Directive where
  name : Name
  arguments : List Argument
  span : Span

structure Alias where
  name : Name
  span : Span
  deriving DecidableEq, Repr

structure TypeCondition where
  namedType : NamedType
  span : Span
  deriving DecidableEq, Repr

structure FragmentSpread where
  name : Name
  directives : List Directive
  span : Span

mutual

structure SelectionSet where
  selections : List Selection
  span : Span

inductive Selection where
  | field (s : Field)
  | fragmentSpread (s : FragmentSpread)
  | inlineFragment (s : InlineFragment)

structure Field where
  responseAlias : Option Alias
  name : Name
  arguments : List Argument
  directives : List Directive
  selectionSet : Option SelectionSet
  span : Span

structure InlineFragment where
  typeCondition : Option TypeCondition
  directives : List Directive
  selectionSet : SelectionSet
  span : Span

end

def Field.responseKey (f : Field) : String :=
  match f.responseAlias with
  | some a => a.name.value
  | none => f.name.value

def Selection.span : Selection → Span
  | .field s => s.span
  | .fragmentSpread s => s.span
  | .inlineFragment s => s.span

end GraphQLSyntax
