import GraphQLSyntax.Proofs.Ledger.Productions

/-!
# The bookkeeping of every parsing routine

Whatever routine runs and in whatever state, the levels and the open enclosures are kept in balance.
-/

set_option autoImplicit false

namespace GraphQLSyntax

namespace Parser

/-- The parsing routines, with what each of them reads. A body is what a nested construct does one level deeper. -/
inductive Routine : Type → Type
  | whole (symbol : GrammarSymbol) : Routine Construct
  | wholeDocument : Routine Document
  | document : Routine Document
  | definition : Routine Definition
  | operationDefinition : Routine OperationDefinition
  | operationType : Routine (OperationKind × Span)
  | variableDefinitions : Routine (List VariableDefinition)
  | variableDefinition : Routine VariableDefinition
  | fragmentDefinition : Routine FragmentDefinition
  | fragmentName : Routine Name
  | typeCondition : Routine TypeCondition
  | selectionSet : Routine SelectionSet
  | selectionSetBody : Routine SelectionSet
  | selection : Routine Selection
  | field : Routine Field
  | fieldHead : Routine Field
  | responseAlias : Routine Alias
  | fragmentSpread : Routine FragmentSpread
  | inlineFragment : Routine InlineFragment
  | inlineFragmentHead : Routine (Span × Option TypeCondition × List Directive)
  | directives : Routine (List Directive)
  | optionalDirectives : Routine (List Directive)
  | directive : Routine Directive
  | arguments (e : Enclosure) : Routine (List Argument)
  | optionalArguments (e : Enclosure) : Routine (List Argument)
  | argument : Routine Argument
  | typeReference : Routine TypeReference
  | typeReferenceBody : Routine TypeReference
  | nullableType : Routine NullableType
  | namedType : Routine NamedType
  | listType : Routine ListType
  | nonNullType : Routine NonNullType
  | value (context : ValueContext) : Routine Value
  | valueBody (context : ValueContext) : Routine Value
  | reference : Routine Variable
  | booleanNullOrEnum : Routine Value
  | intValue : Routine IntValue
  | floatValue : Routine FloatValue
  | stringValue : Routine StringValue
  | listValue (context : ValueContext) : Routine ListValue
  | objectValue (context : ValueContext) : Routine ObjectValue
  | name : Routine Name

namespace Routine

def parser : {α : Type} → Routine α → Parser α
  | _, whole symbol => Parser.whole (construct symbol)
  | _, wholeDocument => Parser.whole Parser.document
  | _, document => Parser.document
  | _, definition => Parser.definition
  | _, operationDefinition => Parser.operationDefinition
  | _, operationType => Parser.operationType
  | _, variableDefinitions => Parser.variableDefinitions
  | _, variableDefinition => Parser.variableDefinition
  | _, fragmentDefinition => Parser.fragmentDefinition
  | _, fragmentName => Parser.fragmentName
  | _, typeCondition => Parser.typeCondition
  | _, selectionSet => Parser.selectionSet
  | _, selectionSetBody => selectionSetOf Parser.selection
  | _, selection => Parser.selection
  | _, field => Parser.field
  | _, fieldHead => Parser.fieldHead
  | _, responseAlias => Parser.responseAlias
  | _, fragmentSpread => Parser.fragmentSpread
  | _, inlineFragment => Parser.inlineFragment
  | _, inlineFragmentHead => Parser.inlineFragmentHead
  | _, directives => Parser.directives
  | _, optionalDirectives => Parser.optionalDirectives
  | _, directive => Parser.directive
  | _, arguments e => Parser.arguments e
  | _, optionalArguments e => Parser.optionalArguments e
  | _, argument => Parser.argument
  | _, typeReference => Parser.typeReference
  | _, typeReferenceBody => typeReferenceOf Parser.typeReference
  | _, nullableType => nullableTypeOf Parser.typeReference
  | _, namedType => Parser.namedType
  | _, listType => Parser.listType
  | _, nonNullType => Parser.nonNullType
  | _, value context => Parser.value context
  | _, valueBody context => valueOf context (Parser.value context)
  | _, reference => Parser.reference
  | _, booleanNullOrEnum => Parser.booleanNullOrEnum
  | _, intValue => Parser.intValue
  | _, floatValue => Parser.floatValue
  | _, stringValue => Parser.stringValue
  | _, listValue context => listValueOf (Parser.value context)
  | _, objectValue context => objectValueOf (Parser.value context)
  | _, name => Parser.name

def assembly : {α : Type} → (r : Routine α) → Assembly r.parser
  | _, whole symbol => wholeAssembly (constructAssembly symbol)
  | _, wholeDocument => wholeAssembly documentAssembly
  | _, document => documentAssembly
  | _, definition => definitionAssembly
  | _, operationDefinition => operationDefinitionAssembly
  | _, operationType => .plain plain_operationType
  | _, variableDefinitions => variableDefinitionsAssembly
  | _, variableDefinition => variableDefinitionAssembly
  | _, fragmentDefinition => fragmentDefinitionAssembly
  | _, fragmentName => .plain plain_fragmentName
  | _, typeCondition => .plain plain_typeCondition
  | _, selectionSet => selectionSetAssembly
  | _, selectionSetBody => selectionSetOfAssembly selectionAssembly
  | _, selection => selectionAssembly
  | _, field => fieldOfAssembly selectionSetAssembly
  | _, fieldHead => fieldHeadAssembly
  | _, responseAlias => .plain plain_responseAlias
  | _, fragmentSpread => fragmentSpreadAssembly
  | _, inlineFragment => inlineFragmentOfAssembly selectionSetAssembly
  | _, inlineFragmentHead => inlineFragmentHeadAssembly
  | _, directives => directivesAssembly
  | _, optionalDirectives => optionalDirectivesAssembly
  | _, directive => directiveAssembly
  | _, arguments e => argumentsAssembly e
  | _, optionalArguments e => optionalArgumentsAssembly e
  | _, argument => argumentAssembly
  | _, typeReference => typeReferenceAssembly
  | _, typeReferenceBody => typeReferenceOfAssembly typeReferenceAssembly
  | _, nullableType => nullableTypeOfAssembly typeReferenceAssembly
  | _, namedType => .plain plain_namedType
  | _, listType => listTypeAssembly
  | _, nonNullType => nonNullTypeAssembly
  | _, value context => valueAssembly context
  | _, valueBody context => valueOfAssembly context (valueAssembly context)
  | _, reference => .plain plain_reference
  | _, booleanNullOrEnum => .plain plain_booleanNullOrEnum
  | _, intValue => .plain plain_intValue
  | _, floatValue => .plain plain_floatValue
  | _, stringValue => .plain plain_stringValue
  | _, listValue context => listValueOfAssembly (valueAssembly context)
  | _, objectValue context => objectValueOfAssembly (valueAssembly context)
  | _, name => .plain plain_name

end Routine

/-- A routine that succeeds leaves the depth and the openers as they were, one that fails the depth. The depth never
passes the limit, no level is left at the depth zero, and what is closed is what the same construct opened. -/
theorem bookkeeping_balanced {α : Type} (r : Routine α) (s : ParserState) :
    (∀ a t, r.parser s = .ok a t → t.depth = s.depth ∧ t.openers = s.openers) ∧
    (∀ e t, r.parser s = .error e t → t.depth = s.depth) ∧
    (s.depth ≤ 64 → ∀ entry ∈ r.assembly.ledger s, entry.state.depth ≤ 64) ∧
    (∀ t, .leaving t ∈ r.assembly.ledger s → 0 < t.depth) ∧
    ∀ opener t, .closing opener t ∈ r.assembly.ledger s → t.openers.head? = some opener := by
  have hSettled := r.assembly.settled s
  have hSound := r.assembly.ledger_sound s
  refine ⟨fun a t hRun => ?_, fun e t hRun => ?_, fun hs entry hEntry => ?_, fun t ht => ?_, fun opener t ht => ?_⟩
  · rw [hRun] at hSettled
    exact hSettled
  · rw [hRun] at hSettled
    exact hSettled
  · exact Nat.le_trans (hSound entry hEntry).le_max (Nat.max_le.mpr ⟨hs, Nat.le_refl _⟩)
  · exact Nat.zero_lt_of_lt ((hSound _ ht).leaving t rfl)
  · exact (hSound _ ht).closing opener t rfl

/-- A list type at the last depth that allows one, inside parentheses: its item is one level deeper, and what it closes
is its own bracket and not the parenthesis. -/
theorem bookkeeping_balanced_listType :
    let token (kind : TokenKind) : Token := ⟨kind, .emptyAt .origin⟩
    let close := token (.punctuator .bracketClose)
    let outer : Opener := ⟨.emptyAt .origin, .variableDefinitions⟩
    let inner : Opener := ⟨.emptyAt .origin, .listType⟩
    let s : ParserState := ⟨.ofList [token (.punctuator .bracketOpen), token (.name "a"), close], [outer], 63, none⟩
    let left : ParserState := ⟨⟨[close], []⟩, [inner, outer], 64, some .origin⟩
    let closed : ParserState := ⟨⟨[close], []⟩, [inner, outer], 63, some .origin⟩
    (∃ type t, Routine.listType.parser s = .ok type t ∧ t.depth = s.depth ∧ t.openers = s.openers) ∧
    (∀ entry ∈ Routine.listType.assembly.ledger s, entry.state.depth ≤ 64) ∧
    (.leaving left ∈ Routine.listType.assembly.ledger s ∧ 0 < left.depth) ∧
    .closing inner closed ∈ Routine.listType.assembly.ledger s ∧ closed.openers.head? = some inner := by
  intro token close outer inner s left closed
  obtain ⟨hOk, -, hDepth, hLeaving, hClosing⟩ := bookkeeping_balanced .listType s
  have hLeft : .leaving left ∈ Routine.listType.assembly.ledger s := by decide +kernel
  have hClosed : .closing inner closed ∈ Routine.listType.assembly.ledger s := by decide +kernel
  have hSuccess : (match Routine.listType.parser s with
      | .ok _ _ => true
      | .error _ _ => false) = true := by decide +kernel
  refine ⟨?_, hDepth (by decide), ⟨hLeft, hLeaving left hLeft⟩, hClosed, hClosing inner closed hClosed⟩
  cases hRun : Routine.listType.parser s with
  | ok type t => exact ⟨type, t, rfl, hOk type t hRun⟩
  | error e t =>
    rw [hRun] at hSuccess
    cases hSuccess

end Parser

end GraphQLSyntax
