import GraphQLSyntax.Proofs.Grammar.Induction
import GraphQLSyntax.Proofs.Tree.Children

/-!
# The tokens of nodes

Every node is derived from tokens of its own, its span reaches from the first of them to the last, and the tokens of
its children lie among them, one child after the other. Seen from the node at the top, this holds all the way down.
-/

set_option autoImplicit false

namespace GraphQLSyntax

/-- The production of a node. Where no variables are allowed, values are derived from the same tokens as elsewhere. -/
def Node.Phrase (ts : List Token) : Node → Prop
  | document d => DocumentPhrase ts d
  | operationDefinition d => OperationPhrase ts d
  | fragmentDefinition d => FragmentPhrase ts d
  | variableDefinition d => VariableDefinitionPhrase ts d
  | selectionSet s => SelectionSetPhrase ts s
  | field f => FieldPhrase SelectionSetPhrase ts f
  | responseAlias a => AliasPhrase ts a
  | argument a => ArgumentPhrase ts a
  | directive d => DirectivePhrase ts d
  | fragmentSpread s => FragmentSpreadPhrase ts s
  | inlineFragment f => InlineFragmentPhrase SelectionSetPhrase ts f
  | typeCondition t => TypeConditionPhrase ts t
  | namedType t => NamedTypePhrase ts t
  | type t => TypePhrase ts t
  | listType t => ListTypePhrase TypePhrase ts t
  | nonNullType t => NonNullPhrase TypePhrase ts t
  | nullableType t => NullablePhrase TypePhrase ts t
  | name n => NamePhrase ts n
  | reference v => VariablePhrase ts v
  | listValue v => ListPhrase (ValuePhrase true) ts v
  | objectValue v => ObjectPhrase (ValuePhrase true) ts v
  | objectField f => ObjectFieldPhrase (ValuePhrase true) ts f
  | booleanValue v => WordPhrase ts (.boolean v)
  | enumValue v => WordPhrase ts (.enum v)
  | floatValue v => FloatPhrase ts v
  | intValue v => IntPhrase ts v
  | nullValue v => WordPhrase ts (.null v)
  | stringValue v => StringPhrase ts v

/-- Nodes whose tokens stand one after the other among some tokens. -/
inductive Laid : List Token → List Node → Prop
  | nil {ts : List Token} : Laid ts []
  | cons {gap ts us : List Token} {n : Node} {ns : List Node} : n.Phrase ts → Laid us ns →
      Laid (gap ++ (ts ++ us)) (n :: ns)

/-- From the start of the first token to the end of the last one, in the file of the first. -/
def Span.Covers (s : Span) (ts : List Token) : Prop :=
  ∃ first ∈ ts.head?, ∃ last ∈ ts.getLast?, s = ⟨first.span.start, last.span.stop, first.span.file⟩

/-! ## Nodes side by side -/

section

variable {ts us : List Token} {n : Node} {ns ms : List Node}

namespace Laid

theorem skip (gap : List Token) (h : Laid ts ns) : Laid (gap ++ ts) ns := by
  cases h with
  | nil => exact .nil
  | cons hNode hRest =>
    rw [← List.append_assoc]
    exact .cons hNode hRest

theorem pass (t : Token) (h : Laid ts ns) : Laid (t :: ts) ns := h.skip [t]

theorem node (hNode : n.Phrase ts) (h : Laid us ns) : Laid (ts ++ us) (n :: ns) := @Laid.cons [] ts us n ns hNode h

theorem append (h : Laid ts ns) (h' : Laid us ms) : Laid (ts ++ us) (ns ++ ms) := by
  induction h with
  | nil => exact h'.skip _
  | cons hNode _ ih =>
    rw [List.append_assoc, List.append_assoc]
    exact .cons hNode ih

theorem before (h : Laid ts ns) (us : List Token) : Laid (ts ++ us) ns := by
  rw [← List.append_nil ns]
  exact h.append .nil

theorem one (h : n.Phrase ts) : Laid ts [n] := by
  rw [← List.append_nil ts]
  exact .node h .nil

theorem infix_of_mem (h : Laid ts ns) : ∀ n ∈ ns, ∃ us, us <:+: ts ∧ n.Phrase us := by
  induction h with
  | nil => exact fun _ hn => nomatch hn
  | @cons gap ts us m ns hNode _ ih =>
    intro n hn
    rcases List.mem_cons.mp hn with rfl | hn
    · exact ⟨ts, List.infix_append' gap ts us, hNode⟩
    · obtain ⟨vs, hInfix, hPhrase⟩ := ih n hn
      refine ⟨vs, hInfix.trans ?_, hPhrase⟩
      rw [← List.append_assoc]
      exact (List.suffix_append (gap ++ ts) us).isInfix

end Laid

variable {α : Type} {D : Production α} (root : α → Node)

theorem Repeated.laid (hD : ∀ ⦃ts a⦄, D ts a → (root a).Phrase ts) {as : List α} (h : Repeated D ts as) :
    Laid ts (as.map root) := by
  induction h with
  | nil => exact .nil
  | cons hItem _ ih => exact .node (hD hItem) ih

theorem Enclosed.laid {opening closing : Punctuator} (hD : ∀ ⦃ts a⦄, D ts a → (root a).Phrase ts) {as : List α}
    (h : Enclosed opening closing D ts as) : Laid ts (as.map root) := by
  obtain ⟨-, hItems, -⟩ := h
  exact ((hItems.laid root hD).before _).pass _

theorem Optional.laid (hD : ∀ ⦃ts a⦄, D ts a → Laid ts [root a]) {a : Option α} (h : Optional D ts a) :
    Laid ts (a.toList.map root) := by
  cases h with
  | absent => exact .nil
  | present hItem => exact hD hItem

theorem OptionalList.laid {D : Production (List α)} (hD : ∀ ⦃ts as⦄, D ts as → Laid ts (as.map root)) {as : List α}
    (h : OptionalList D ts as) : Laid ts (as.map root) := by
  cases h with
  | absent => exact .nil
  | present hItems => exact hD hItems

end

/-! ## The children of a node -/

section

variable {references : Bool} {ts : List Token}

theorem ValuePhrase.node {v : Value} (h : ValuePhrase references ts v) : v.node.Phrase ts := by
  cases h.allow with
  | reference _ hPhrase => exact hPhrase
  | int hPhrase => exact hPhrase
  | float hPhrase => exact hPhrase
  | string hPhrase => exact hPhrase
  | word hPhrase => cases v <;> first | exact hPhrase | cases hPhrase
  | list hPhrase => exact hPhrase
  | object hPhrase => exact hPhrase

theorem SelectionPhrase.node {s : Selection} (h : SelectionPhrase SelectionSetPhrase ts s) : s.node.Phrase ts := by
  cases h with
  | field hPhrase => exact hPhrase
  | fragmentSpread hPhrase => exact hPhrase
  | inlineFragment hPhrase => exact hPhrase

theorem DefinitionPhrase.node {d : Definition} (h : DefinitionPhrase ts d) : d.node.Phrase ts := by
  cases h with
  | operation hPhrase => exact hPhrase
  | fragment hPhrase => exact hPhrase

theorem DefaultPhrase.laid ⦃ts : List Token⦄ ⦃v : Value⦄ (h : DefaultPhrase ts v) : Laid ts [v.node] := by
  obtain ⟨-, hValue⟩ := h
  exact .pass _ (.one hValue.node)

theorem ArgumentsPhrase.laid ⦃ts : List Token⦄ ⦃as : List Argument⦄ (h : ArgumentsPhrase ts as) :
    Laid ts (as.map .argument) := by
  obtain ⟨-, hItems⟩ := h
  exact hItems.laid .argument fun _ _ hItem => hItem

theorem DirectivesPhrase.laid ⦃ts : List Token⦄ ⦃ds : List Directive⦄ (h : DirectivesPhrase ts ds) :
    Laid ts (ds.map .directive) := by
  obtain ⟨-, hItems⟩ := h
  exact hItems.laid .directive fun _ _ hItem => hItem

theorem VariableDefinitionsPhrase.laid ⦃ts : List Token⦄ ⦃ds : List VariableDefinition⦄
    (h : VariableDefinitionsPhrase ts ds) : Laid ts (ds.map .variableDefinition) := by
  obtain ⟨-, hItems⟩ := h
  exact hItems.laid .variableDefinition fun _ _ hItem => hItem

/-- The tokens of the children of a node stand among its own, one child after the other. -/
theorem Node.Phrase.laid {n : Node} (h : n.Phrase ts) : Laid ts n.children := by
  cases n with
  | document d =>
    obtain ⟨-, hItems⟩ := h
    exact hItems.laid Definition.node fun _ _ hItem => hItem.node
  | operationDefinition d =>
    cases h with
    | shorthand hSet => exact .one hSet
    | mk hKeyword hName hVariables hDirectives hSet =>
      have hName := hName.laid .name fun _ _ hItem => .one hItem
      have hVariables := hVariables.laid _ VariableDefinitionsPhrase.laid
      have hDirectives := hDirectives.laid _ DirectivesPhrase.laid
      exact .skip _ (hName.append (hVariables.append (hDirectives.append (.one hSet))))
  | fragmentDefinition d =>
    obtain ⟨-, ⟨-, hName⟩, hCondition, hDirectives, hSet⟩ := h
    have hDirectives := hDirectives.laid _ DirectivesPhrase.laid
    exact .pass _ (.node hName (.node hCondition (hDirectives.append (.one hSet))))
  | variableDefinition d =>
    obtain ⟨hVariable, -, hType, hDefault⟩ := h
    have hDefault := hDefault.laid Value.node DefaultPhrase.laid
    exact .node hVariable (.pass _ (.node hType hDefault))
  | selectionSet s =>
    obtain ⟨-, hItems⟩ := h
    exact hItems.laid Selection.node fun _ _ hItem => hItem.node
  | field f =>
    obtain ⟨hAlias, hName, hArguments, hDirectives, hSet⟩ := h
    have hAlias := hAlias.laid .responseAlias fun _ _ hItem => .one hItem
    have hArguments := hArguments.laid _ ArgumentsPhrase.laid
    have hDirectives := hDirectives.laid _ DirectivesPhrase.laid
    have hSet := hSet.laid .selectionSet fun _ _ hItem => .one hItem
    exact hAlias.append (.node hName (hArguments.append (hDirectives.append hSet)))
  | responseAlias a =>
    obtain ⟨hName, -⟩ := h
    have hName : Laid _ [.name _] := .one hName
    exact hName.before _
  | argument a =>
    obtain ⟨hName, -, hValue⟩ := h
    exact .node hName (.pass _ (.one hValue.node))
  | directive d =>
    obtain ⟨-, hName, hArguments⟩ := h
    exact .pass _ (.node hName (hArguments.laid _ ArgumentsPhrase.laid))
  | fragmentSpread s =>
    obtain ⟨-, ⟨-, hName⟩, hDirectives⟩ := h
    exact .pass _ (.node hName (hDirectives.laid _ DirectivesPhrase.laid))
  | inlineFragment f =>
    obtain ⟨-, hCondition, hDirectives, hSet⟩ := h
    have hCondition := hCondition.laid .typeCondition fun _ _ hItem => .one hItem
    have hDirectives := hDirectives.laid _ DirectivesPhrase.laid
    exact .pass _ (hCondition.append (hDirectives.append (.one hSet)))
  | typeCondition t =>
    obtain ⟨-, hType⟩ := h
    exact .pass _ (.one hType)
  | namedType t =>
    obtain ⟨-, hName⟩ := h
    exact .one hName
  | type t =>
    cases h with
    | named hPhrase => exact .one hPhrase
    | list hPhrase => exact .one hPhrase
    | nonNull hPhrase => exact .one hPhrase
  | listType t =>
    obtain ⟨-, hItem, -⟩ := h
    have hItem : Laid _ [.type _] := .one hItem
    exact (hItem.before _).pass _
  | nonNullType t =>
    obtain ⟨hInner, -⟩ := h
    have hInner : Laid _ [.nullableType _] := .one hInner
    exact hInner.before _
  | nullableType t =>
    cases h with
    | named hPhrase => exact .one hPhrase
    | list hPhrase => exact .one hPhrase
  | reference v =>
    obtain ⟨-, hName⟩ := h
    exact .pass _ (.one hName)
  | listValue v =>
    obtain ⟨hItems⟩ := h
    exact hItems.laid Value.node fun _ _ hItem => hItem.node
  | objectValue v =>
    obtain ⟨hItems⟩ := h
    exact hItems.laid .objectField fun _ _ hItem => hItem
  | objectField f =>
    obtain ⟨hName, -, hValue⟩ := h
    exact .node hName (.pass _ (.one hValue.node))
  | name | booleanValue | enumValue | floatValue | intValue | nullValue | stringValue => exact .nil

/-! ## Spans -/

theorem Span.Covers.ne_nil {s : Span} (h : s.Covers ts) : ts ≠ [] := by
  rintro rfl
  obtain ⟨_, hFirst, -⟩ := h
  cases hFirst

theorem spanOver_covers (h : ts ≠ []) : (spanOver ts).Covers ts := by
  cases ts with
  | nil => exact absurd rfl h
  | cons t ts => exact ⟨t, rfl, ts.getLast?.getD t, List.getLast?_cons, rfl⟩

theorem Token.span_covers (t : Token) : t.span.Covers [t] := ⟨t, rfl, t, rfl, rfl⟩

theorem NamePhrase.covers {n : Name} (h : NamePhrase ts n) : n.span.Covers ts := by
  cases h
  exact Token.span_covers _

theorem NamedTypePhrase.covers {t : NamedType} (h : NamedTypePhrase ts t) : t.span.Covers ts := by
  cases h
  exact Token.span_covers _

theorem ListTypePhrase.covers {D : Production TypeReference} {t : ListType} (h : ListTypePhrase D ts t) :
    t.span.Covers ts := by
  cases h
  exact spanOver_covers (List.cons_ne_nil _ _)

theorem NonNullPhrase.covers {D : Production TypeReference} {t : NonNullType} (h : NonNullPhrase D ts t) :
    t.span.Covers ts := by
  cases h
  exact spanOver_covers (by simp)

theorem WordPhrase.covers {v : Value} (h : WordPhrase ts v) : v.span.Covers ts := by
  cases h <;> exact Token.span_covers _

theorem SelectionSetPhrase.covers {s : SelectionSet} (h : SelectionSetPhrase ts s) : s.span.Covers ts := by
  obtain ⟨-, ⟨-, -, -⟩⟩ := h
  exact spanOver_covers (List.cons_ne_nil _ _)

theorem OperationPhrase.covers {o : OperationDefinition} (h : OperationPhrase ts o) : o.span.Covers ts := by
  cases h with
  | shorthand hSet => exact spanOver_covers hSet.covers.ne_nil
  | mk hKeyword =>
    obtain ⟨-⟩ := hKeyword
    exact spanOver_covers (List.cons_ne_nil _ _)

theorem FragmentPhrase.covers {f : FragmentDefinition} (h : FragmentPhrase ts f) : f.span.Covers ts := by
  cases h
  exact spanOver_covers (List.cons_ne_nil _ _)

theorem DefinitionPhrase.covers {d : Definition} (h : DefinitionPhrase ts d) : d.span.Covers ts := by
  cases h with
  | operation hPhrase => exact hPhrase.covers
  | fragment hPhrase => exact hPhrase.covers

/-- The span of a node is the one of its tokens. -/
theorem Node.Phrase.covers {n : Node} (h : n.Phrase ts) : n.span.Covers ts := by
  cases n with
  | document d =>
    obtain ⟨hNonempty, hItems⟩ := h
    apply spanOver_covers
    cases hItems with
    | nil => exact absurd rfl hNonempty
    | cons hItem _ => simp [hItem.covers.ne_nil]
  | operationDefinition d => exact OperationPhrase.covers h
  | fragmentDefinition d => exact FragmentPhrase.covers h
  | selectionSet s => exact SelectionSetPhrase.covers h
  | field f =>
    obtain ⟨-, hName, -, -, -⟩ := h
    apply spanOver_covers
    simp [hName.covers.ne_nil]
  | variableDefinition | responseAlias | argument | objectField =>
    cases h
    apply spanOver_covers
    simp
  | directive | fragmentSpread | inlineFragment | typeCondition | reference =>
    cases h
    exact spanOver_covers (List.cons_ne_nil _ _)
  | listValue v =>
    obtain ⟨⟨-, -, -⟩⟩ := h
    exact spanOver_covers (List.cons_ne_nil _ _)
  | objectValue v =>
    obtain ⟨⟨-, -, -⟩⟩ := h
    exact spanOver_covers (List.cons_ne_nil _ _)
  | namedType t => exact NamedTypePhrase.covers h
  | listType t => exact ListTypePhrase.covers h
  | nonNullType t => exact NonNullPhrase.covers h
  | type t =>
    cases h with
    | named hPhrase => exact hPhrase.covers
    | list hPhrase => exact hPhrase.covers
    | nonNull hPhrase => exact hPhrase.covers
  | nullableType t =>
    cases h with
    | named hPhrase => exact hPhrase.covers
    | list hPhrase => exact hPhrase.covers
  | name n => exact NamePhrase.covers h
  | booleanValue v | enumValue v | nullValue v => exact WordPhrase.covers h
  | floatValue | intValue | stringValue =>
    cases h
    exact Token.span_covers _

/-! ## Constructs -/

theorem Derives.symbol_eq {symbol : GrammarSymbol} {n : Construct} (h : Derives symbol ts n) : n.symbol = symbol := by
  cases symbol <;>
    obtain ⟨a, -, rfl⟩ := h <;> rfl

/-- A construct that has one span is one node, derived from the same tokens. -/
theorem Derives.root {symbol : GrammarSymbol} {n : Construct} (h : Derives symbol ts n) (hSpanned : n.isSpanned = true) :
    ∃ m, n.roots = [m] ∧ n.span? = some m.span ∧ m.Phrase ts := by
  cases symbol
  all_goals
    obtain ⟨a, hPhrase, rfl⟩ := h
  case operationType | variableDefinitions | arguments | directives => cases hSpanned
  case definition => exact ⟨a.node, rfl, congrArg some a.span_node.symm, hPhrase.node⟩
  case selection => exact ⟨a.node, rfl, congrArg some a.span_node.symm, hPhrase.node⟩
  case value | constValue => exact ⟨a.node, rfl, congrArg some a.span_node.symm, hPhrase.node⟩
  case booleanOrNullOrEnum =>
    exact ⟨a.node, rfl, congrArg some a.span_node.symm, (ValuePhrase.word hPhrase : ValuePhrase true _ _).node⟩
  case fragmentName =>
    obtain ⟨-, hName⟩ := hPhrase
    exact ⟨.name a, rfl, rfl, hName⟩
  all_goals exact ⟨_, rfl, rfl, hPhrase⟩

theorem Derives.covers {symbol : GrammarSymbol} {n : Construct} (h : Derives symbol ts n) (hSpanned : n.isSpanned = true) :
    ∃ s, n.span? = some s ∧ s.Covers ts := by
  obtain ⟨m, -, hSpan, hPhrase⟩ := h.root hSpanned
  exact ⟨m.span, hSpan, hPhrase.covers⟩

/-- The tokens of all nodes of a construct stand among those that it is derived from. -/
theorem Derives.laid {symbol : GrammarSymbol} {n : Construct} (h : Derives symbol ts n) : Laid ts n.roots := by
  cases hSpanned : n.isSpanned with
  | true =>
    obtain ⟨m, hRoots, -, hPhrase⟩ := h.root hSpanned
    rw [hRoots]
    exact .one hPhrase
  | false =>
    cases symbol
    all_goals
      obtain ⟨a, hPhrase, rfl⟩ := h
    case operationType => exact .nil
    case variableDefinitions => exact hPhrase.laid
    case arguments => exact hPhrase.laid
    case directives => exact hPhrase.laid
    all_goals cases hSpanned

/-- Every node of a construct is derived from some of its tokens. -/
theorem Derives.exists_phrase {symbol : GrammarSymbol} {n : Construct} (h : Derives symbol ts n) :
    ∀ m ∈ n.walk, ∃ us, us <:+: ts ∧ m.Phrase us := by
  apply Construct.forall_walk
  · rintro m ⟨us, hInfix, hPhrase⟩ k hk
    obtain ⟨vs, hInside, hPhrase⟩ := hPhrase.laid.infix_of_mem k hk
    exact ⟨vs, hInside.trans hInfix, hPhrase⟩
  · exact h.laid.infix_of_mem

end

end GraphQLSyntax
