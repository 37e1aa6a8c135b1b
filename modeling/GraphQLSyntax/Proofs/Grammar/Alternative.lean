import GraphQLSyntax.Proofs.Grammar.Nesting
import GraphQLSyntax.Proofs.Grammar.Phrase

/-!
# Alternatives

Some symbols stand for one of several others. What is derived from such a symbol is derived from one of its alternatives,
and from that one alone.
-/

set_option autoImplicit false

namespace GraphQLSyntax

/-- The symbols that a symbol is a choice between. -/
def GrammarSymbol.alternatives : GrammarSymbol → List GrammarSymbol
  | .value => [.reference, .intValue, .floatValue, .stringValue, .booleanOrNullOrEnum, .listValue, .objectValue]
  | .selection => [.field, .fragmentSpread, .inlineFragment]
  | .definition => [.operationDefinition, .fragmentDefinition]
  | .type => [.namedType, .listType, .nonNullType]
  | _ => []

/-- The same node as a construct of the alternative that was chosen, if its symbol has alternatives. -/
def Construct.alternative : Construct → Construct
  | .value (.reference v) => .reference v
  | .value (.int v) => .intValue v
  | .value (.float v) => .floatValue v
  | .value (.string v) => .stringValue v
  | .value (.list v) => .listValue v
  | .value (.object v) => .objectValue v
  | .value v => .booleanOrNullOrEnum v
  | .selection (.field s) => .field s
  | .selection (.fragmentSpread s) => .fragmentSpread s
  | .selection (.inlineFragment s) => .inlineFragment s
  | .definition (.operation d) => .operationDefinition d
  | .definition (.fragment d) => .fragmentDefinition d
  | .type (.named t) => .namedType t
  | .type (.list t) => .listType t
  | .type (.nonNull t) => .nonNullType t
  | c => c

namespace Construct

theorem symbol_alternative {c : Construct} (h : c.symbol.alternatives ≠ []) :
    c.alternative.symbol ∈ c.symbol.alternatives := by
  cases c with
  | value v => cases v <;> simp [alternative, symbol, GrammarSymbol.alternatives]
  | selection s => cases s <;> simp [alternative, symbol, GrammarSymbol.alternatives]
  | definition d => cases d <;> simp [alternative, symbol, GrammarSymbol.alternatives]
  | type t => cases t <;> simp [alternative, symbol, GrammarSymbol.alternatives]
  | _ => exact absurd rfl h

/-- A value and a type reference count as one more level than the alternative that they are. -/
theorem nesting_alternative (c : Construct) : c.alternative.nesting ≤ c.nesting := by
  cases c with
  | value v => cases v <;> simp [alternative, nesting, Value.nesting, Value.inside]
  | selection s => cases s <;> simp [alternative, nesting, Selection.nesting]
  | definition d => cases d <;> simp [alternative, nesting, Definition.nesting]
  | type t => cases t <;> simp [alternative, nesting, TypeReference.nesting, TypeReference.inside, NonNullType.nesting]
  | _ => exact Nat.le_refl _

end Construct

/-! ## Derivations -/

section

variable {ts : List Token}

/-- What is derived is derived as the alternative that it is. -/
theorem Derives.alternative {c : Construct} (h : Derives c.symbol ts c) :
    Derives c.alternative.symbol ts c.alternative := by
  cases c with
  | value v =>
    obtain ⟨v, hPhrase, hValue⟩ := h
    cases hValue
    cases hPhrase with
    | reference _ hPhrase => exact ⟨_, hPhrase, rfl⟩
    | int hPhrase => exact ⟨_, hPhrase, rfl⟩
    | float hPhrase => exact ⟨_, hPhrase, rfl⟩
    | string hPhrase => exact ⟨_, hPhrase, rfl⟩
    | list hPhrase => exact ⟨_, hPhrase, rfl⟩
    | object hPhrase => exact ⟨_, hPhrase, rfl⟩
    | word hPhrase =>
      cases hPhrase with
      | boolean hKind => exact ⟨_, .boolean hKind, rfl⟩
      | null hKind => exact ⟨_, .null hKind, rfl⟩
      | enum hKind => exact ⟨_, .enum hKind, rfl⟩
  | selection s =>
    obtain ⟨s, hPhrase, hSelection⟩ := h
    cases hSelection
    cases hPhrase with
    | field hPhrase => exact ⟨_, hPhrase, rfl⟩
    | fragmentSpread hPhrase => exact ⟨_, hPhrase, rfl⟩
    | inlineFragment hPhrase => exact ⟨_, hPhrase, rfl⟩
  | definition d =>
    obtain ⟨d, hPhrase, hDefinition⟩ := h
    cases hDefinition
    cases hPhrase with
    | operation hPhrase => exact ⟨_, hPhrase, rfl⟩
    | fragment hPhrase => exact ⟨_, hPhrase, rfl⟩
  | type t =>
    obtain ⟨t, hPhrase, hType⟩ := h
    cases hType
    cases hPhrase with
    | named hPhrase => exact ⟨_, hPhrase, rfl⟩
    | list hPhrase => exact ⟨_, hPhrase, rfl⟩
    | nonNull hPhrase => exact ⟨_, hPhrase, rfl⟩
  | _ => exact h

theorem Derives.of_alternative {c : Construct} (h : Derives c.alternative.symbol ts c.alternative) :
    Derives c.symbol ts c := by
  cases c with
  | value v =>
    refine ⟨v, ?_, rfl⟩
    cases v with
    | reference => exact .reference rfl ((wrapped_iff Construct.reference.inj).mp h)
    | int => exact .int ((wrapped_iff Construct.intValue.inj).mp h)
    | float => exact .float ((wrapped_iff Construct.floatValue.inj).mp h)
    | string => exact .string ((wrapped_iff Construct.stringValue.inj).mp h)
    | list => exact .list ((wrapped_iff Construct.listValue.inj).mp h)
    | object => exact .object ((wrapped_iff Construct.objectValue.inj).mp h)
    | boolean | null | enum => exact .word ((wrapped_iff Construct.booleanOrNullOrEnum.inj).mp h)
  | selection s =>
    refine ⟨s, ?_, rfl⟩
    cases s with
    | field => exact .field ((wrapped_iff Construct.field.inj).mp h)
    | fragmentSpread => exact .fragmentSpread ((wrapped_iff Construct.fragmentSpread.inj).mp h)
    | inlineFragment => exact .inlineFragment ((wrapped_iff Construct.inlineFragment.inj).mp h)
  | definition d =>
    refine ⟨d, ?_, rfl⟩
    cases d with
    | operation => exact .operation ((wrapped_iff Construct.operationDefinition.inj).mp h)
    | fragment => exact .fragment ((wrapped_iff Construct.fragmentDefinition.inj).mp h)
  | type t =>
    refine ⟨t, ?_, rfl⟩
    cases t with
    | named => exact .named ((wrapped_iff Construct.namedType.inj).mp h)
    | list => exact .list ((wrapped_iff Construct.listType.inj).mp h)
    | nonNull => exact .nonNull ((wrapped_iff Construct.nonNullType.inj).mp h)
  | _ => exact h

/-- Whatever an alternative derives is the alternative of some construct. -/
theorem Derives.exists_alternative {symbol b : GrammarSymbol} {d : Construct} (h : Derives b ts d)
    (hb : b ∈ symbol.alternatives) : ∃ c : Construct, c.symbol = symbol ∧ c.alternative = d := by
  cases symbol with
  | value =>
    simp only [GrammarSymbol.alternatives, List.mem_cons, List.not_mem_nil, or_false] at hb
    obtain rfl | rfl | rfl | rfl | rfl | rfl | rfl := hb
    all_goals obtain ⟨v, hPhrase, rfl⟩ := h
    · exact ⟨.value (.reference v), rfl, rfl⟩
    · exact ⟨.value (.int v), rfl, rfl⟩
    · exact ⟨.value (.float v), rfl, rfl⟩
    · exact ⟨.value (.string v), rfl, rfl⟩
    · refine ⟨.value v, rfl, ?_⟩
      cases hPhrase <;> rfl
    · exact ⟨.value (.list v), rfl, rfl⟩
    · exact ⟨.value (.object v), rfl, rfl⟩
  | selection =>
    simp only [GrammarSymbol.alternatives, List.mem_cons, List.not_mem_nil, or_false] at hb
    obtain rfl | rfl | rfl := hb
    all_goals obtain ⟨s, -, rfl⟩ := h
    · exact ⟨.selection (.field s), rfl, rfl⟩
    · exact ⟨.selection (.fragmentSpread s), rfl, rfl⟩
    · exact ⟨.selection (.inlineFragment s), rfl, rfl⟩
  | definition =>
    simp only [GrammarSymbol.alternatives, List.mem_cons, List.not_mem_nil, or_false] at hb
    obtain rfl | rfl := hb
    all_goals obtain ⟨d, -, rfl⟩ := h
    · exact ⟨.definition (.operation d), rfl, rfl⟩
    · exact ⟨.definition (.fragment d), rfl, rfl⟩
  | type =>
    simp only [GrammarSymbol.alternatives, List.mem_cons, List.not_mem_nil, or_false] at hb
    obtain rfl | rfl | rfl := hb
    all_goals obtain ⟨t, -, rfl⟩ := h
    · exact ⟨.type (.named t), rfl, rfl⟩
    · exact ⟨.type (.list t), rfl, rfl⟩
    · exact ⟨.type (.nonNull t), rfl, rfl⟩
  | _ => cases hb

/-- The words for booleans and null are names too, but none of them stands before a type condition. -/
theorem kind_of_nameText {k : TokenKind} (h : k.nameText? = some "on") : k = .name "on" := by
  cases k with
  | name text => rw [Option.some.inj h]
  | boolean value => cases value <;> exact absurd h (by decide)
  | null => exact absurd h (by decide)
  | _ => cases h

/-- A name is one of a fragment if it is not the word before a type condition. -/
theorem derives_fragmentName_iff {n : Name} :
    Derives .fragmentName ts (.fragmentName n) ↔ Derives .name ts (.name n) ∧ n.value ≠ "on" := by
  refine (wrapped_iff Construct.fragmentName.inj).trans (.trans ?_ (and_congr_left' (wrapped_iff Construct.name.inj).symm))
  constructor
  · rintro ⟨hOn, hName⟩
    refine ⟨hName, ?_⟩
    obtain ⟨hKind⟩ := hName
    rintro rfl
    exact hOn (kind_of_nameText hKind)
  · rintro ⟨⟨hKind⟩, hOn⟩
    refine .mk ?_ (.mk hKind)
    intro hWord
    rw [hWord] at hKind
    cases hKind
    exact hOn rfl

/-- A document of one definition is that definition. -/
theorem derives_document_singleton_iff {d : Definition} {span : Span} :
    Derives .document ts (.document ⟨[d], span⟩) ↔ Derives .definition ts (.definition d) ∧ span = spanOver ts := by
  refine (wrapped_iff Construct.document.inj).trans (.trans ?_ (and_congr_left' (wrapped_iff Construct.definition.inj).symm))
  constructor
  · rintro ⟨-, hDefinitions⟩
    cases hDefinitions with
    | cons hPhrase hNone =>
      cases hNone
      rw [List.append_nil]
      exact ⟨hPhrase, rfl⟩
  · rintro ⟨hPhrase, rfl⟩
    have hOne := Repeated.cons hPhrase .nil
    rw [List.append_nil] at hOne
    exact .mk (List.cons_ne_nil d []) hOne

end

end GraphQLSyntax
