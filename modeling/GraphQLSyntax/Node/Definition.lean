import GraphQLSyntax.Grammar.Keyword
import GraphQLSyntax.Node.Selection

/-!
# Definitions and documents
-/

set_option autoImplicit false

namespace GraphQLSyntax

structure VariableDefinition where
  declared : Variable
  type : TypeReference
  defaultValue : Option Value
  span : Span

structure OperationDefinition where
  kind : OperationKind
  name : Option Name
  variableDefinitions : List VariableDefinition
  directives : List Directive
  selectionSet : SelectionSet
  span : Span

/-- Whether an operation is no more than its selection set, however it was written. -/
def OperationDefinition.isShorthand (o : OperationDefinition) : Bool :=
  o.kind == .query && o.name.isNone && o.variableDefinitions.isEmpty && o.directives.isEmpty

structure FragmentDefinition where
  name : Name
  typeCondition : TypeCondition
  directives : List Directive
  selectionSet : SelectionSet
  span : Span

inductive Definition where
  | fragment (d : FragmentDefinition)
  | operation (d : OperationDefinition)

def Definition.span : Definition → Span
  | .fragment d => d.span
  | .operation d => d.span

structure Document where
  definitions : List Definition
  span : Span

namespace Document

def operations (d : Document) : List OperationDefinition :=
  d.definitions.filterMap fun
    | .operation o => some o
    | .fragment _ => none

def fragments (d : Document) : List FragmentDefinition :=
  d.definitions.filterMap fun
    | .operation _ => none
    | .fragment f => some f

end Document

end GraphQLSyntax
