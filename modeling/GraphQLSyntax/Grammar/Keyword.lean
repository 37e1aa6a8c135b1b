/-!
# Keywords

Words that start a definition. Those of the type system are known only to say that their definitions do
not belong in an executable document.
-/

set_option autoImplicit false

namespace GraphQLSyntax

inductive OperationKind where
  | mutation
  | query
  | subscription
  deriving DecidableEq, Repr

namespace OperationKind

def text : OperationKind → String
  | mutation => "mutation"
  | query => "query"
  | subscription => "subscription"

def ofKeyword? (word : String) : Option OperationKind :=
  if word = "mutation" then some mutation
  else if word = "query" then some query
  else if word = "subscription" then some subscription
  else none

theorem ofKeyword?_text (k : OperationKind) : ofKeyword? k.text = some k := by
  cases k <;> rfl

end OperationKind

/-- What a definition of the type system defines. -/
inductive DefinitionKind where
  | schema
  | typeDefinition
  | directiveDefinition
  deriving DecidableEq, Repr

namespace DefinitionKind

def description : DefinitionKind → String
  | schema => "schema definition"
  | typeDefinition => "type definition"
  | directiveDefinition => "directive definition"

def ofKeyword? (word : String) : Option DefinitionKind :=
  if word = "schema" ∨ word = "extend" then some schema
  else if word ∈ ["type", "interface", "union", "enum", "scalar", "input"] then some typeDefinition
  else if word = "directive" then some directiveDefinition
  else none

end DefinitionKind

end GraphQLSyntax
