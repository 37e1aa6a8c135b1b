import GraphQLSyntax.Construct
import GraphQLSyntax.Number.Decimal
import GraphQLSyntax.StringLiteral.Decode
import GraphQLSyntax.Token.Basic

/-!
# The grammar

A production relates a list of tokens to the node that stands for it. The tokens of a node are the ones
of its parts and of its own punctuators and keywords, in order and with nothing between them, and its
span reaches from the first of them to the last.

Values, type references and selection sets contain themselves. The parts that they are made of are
stated over the production of what they contain, and the least fixed point is taken once for each.
-/

set_option autoImplicit false

namespace GraphQLSyntax

abbrev Production (α : Type) := List Token → α → Prop

/-- From the start of the first token to the end of the last. -/
def spanOver : List Token → Span
  | [] => .emptyAt .origin
  | t :: ts => t.span.join (ts.getLast?.getD t).span

def Token.Is (t : Token) (p : Punctuator) : Prop := t.kind = .punctuator p

def Token.IsWord (t : Token) (word : String) : Prop := t.kind = .name word

/-! ## Options, repetitions and enclosures -/

section

variable {α : Type}

inductive Optional (item : Production α) : Production (Option α)
  | absent : Optional item [] none
  | present {ts : List Token} {a : α} : item ts a → Optional item ts (some a)

/-- A list that is left out when it is empty. -/
inductive OptionalList (items : Production (List α)) : Production (List α)
  | absent : OptionalList items [] []
  | present {ts : List Token} {as : List α} : items ts as → OptionalList items ts as

inductive Repeated (item : Production α) : Production (List α)
  | nil : Repeated item [] []
  | cons {ts us : List Token} {a : α} {as : List α} :
    item ts a → Repeated item us as → Repeated item (ts ++ us) (a :: as)

/-- The nodes of a production, each put into something else. -/
def Wrapped {β : Type} (wrap : α → β) (item : Production α) : Production β := fun ts b =>
  ∃ a, item ts a ∧ wrap a = b

theorem wrapped_iff {β : Type} {wrap : α → β} {D : Production α} {ts : List Token} {a : α}
    (hWrap : ∀ {b}, wrap b = wrap a → b = a) : Wrapped wrap D ts (wrap a) ↔ D ts a := by
  constructor
  · rintro ⟨b, hPhrase, hEq⟩
    rwa [← hWrap hEq]
  · exact fun hPhrase => ⟨a, hPhrase, rfl⟩

inductive Enclosed (opening closing : Punctuator) (item : Production α) : Production (List α)
  | mk {first last : Token} {ts : List Token} {as : List α} :
    first.Is opening → Repeated item ts as → last.Is closing →
    Enclosed opening closing item (first :: (ts ++ [last])) as

theorem Optional.mono {D E : Production α} {ts : List Token} {a : Option α}
    (h : Optional D ts a) (hItem : ∀ us a, D us a → E us a) : Optional E ts a := by
  cases h with
  | absent => exact .absent
  | present hPhrase => exact .present (hItem _ _ hPhrase)

theorem Repeated.mono {D E : Production α} {ts : List Token} {as : List α}
    (h : Repeated D ts as) (hItem : ∀ us a, D us a → E us a) : Repeated E ts as := by
  induction h with
  | nil => exact .nil
  | cons hPhrase _ ih => exact .cons (hItem _ _ hPhrase) ih

theorem Repeated.append {D : Production α} {ts us : List Token} {as bs : List α} (h : Repeated D ts as)
    (h' : Repeated D us bs) : Repeated D (ts ++ us) (as ++ bs) := by
  induction h with
  | nil => exact h'
  | cons hItem _ ih =>
    rw [List.append_assoc]
    exact .cons hItem ih

theorem Enclosed.mono {D E : Production α} {opening closing : Punctuator} {ts : List Token}
    {as : List α} (h : Enclosed opening closing D ts as) (hItem : ∀ us a, D us a → E us a) :
    Enclosed opening closing E ts as := by
  cases h with
  | mk hFirst hItems hLast => exact .mk hFirst (hItems.mono hItem) hLast

theorem Repeated.infix_of_mem {D : Production α} {ts : List Token} {as : List α} (h : Repeated D ts as) :
    ∀ a ∈ as, ∃ us, us <:+: ts ∧ D us a := by
  induction h with
  | nil => exact List.forall_mem_nil _
  | @cons ts us b bs hItem _ ih =>
    intro a ha
    rcases List.mem_cons.mp ha with rfl | ha
    · exact ⟨ts, (List.prefix_append ts us).isInfix, hItem⟩
    · obtain ⟨vs, hInfix, hPhrase⟩ := ih a ha
      exact ⟨vs, hInfix.trans (List.suffix_append ts us).isInfix, hPhrase⟩

theorem Enclosed.infix_of_mem {D : Production α} {opening closing : Punctuator} {ts : List Token} {as : List α}
    (h : Enclosed opening closing D ts as) : ∀ a ∈ as, ∃ us, us <:+: ts ∧ D us a := by
  obtain ⟨-, hItems, -⟩ := h
  intro a ha
  obtain ⟨us, hInfix, hPhrase⟩ := hItems.infix_of_mem a ha
  exact ⟨us, (hInfix.trans (List.prefix_append _ _).isInfix).trans (List.suffix_cons _ _).isInfix, hPhrase⟩

end

/-! ## Literals -/

/-- The number that digits with a sign before them denote. -/
def intLiteral (raw : String) : Int :=
  let (negative, digits) := splitSign raw.toList
  if negative then -(digitsValue digits : Int) else digitsValue digits

/-- The nearest number to a decimal text, or zero for any other. -/
def floatLiteral (raw : String) : Binary64 :=
  (Binary64.ofText? raw.toList).getD ⟨false, 0⟩

/-- The text that a literal stands for. One that stands for none is taken as empty. -/
def stringLiteral (raw : String) : String :=
  ((decodeStringLiteral raw).toOption).getD ""

inductive IntPhrase : Production IntValue
  | mk {t : Token} {raw : String} : t.kind = .int raw → IntPhrase [t] ⟨intLiteral raw, t.span⟩

inductive FloatPhrase : Production FloatValue
  | mk {t : Token} {raw : String} : t.kind = .float raw → FloatPhrase [t] ⟨floatLiteral raw, t.span⟩

inductive StringPhrase : Production StringValue
  | mk {t : Token} {raw : String} : t.kind = .string raw →
    StringPhrase [t] ⟨stringLiteral raw, isBlockLiteral raw, t.span⟩

/-- Booleans, null, and names, which are enum values. -/
inductive WordPhrase : Production Value
  | boolean {t : Token} {b : Bool} : t.kind = .boolean b → WordPhrase [t] (.boolean ⟨b, t.span⟩)
  | null {t : Token} : t.kind = .null → WordPhrase [t] (.null ⟨t.span⟩)
  | enum {t : Token} {text : String} : t.kind = .name text → WordPhrase [t] (.enum ⟨text, t.span⟩)

/-! ## Names and values -/

inductive NamePhrase : Production Name
  | mk {t : Token} {text : String} : t.kind.nameText? = some text → NamePhrase [t] ⟨text, t.span⟩

inductive VariablePhrase : Production Variable
  | mk {dollar : Token} {ts : List Token} {n : Name} : dollar.Is .dollar → NamePhrase ts n →
    VariablePhrase (dollar :: ts) ⟨n, spanOver (dollar :: ts)⟩

section

variable (item : Production Value)

inductive ListPhrase : Production ListValue
  | mk {ts : List Token} {vs : List Value} : Enclosed .bracketOpen .bracketClose item ts vs →
    ListPhrase ts ⟨vs, spanOver ts⟩

inductive ObjectFieldPhrase : Production ObjectField
  | mk {colon : Token} {ts us : List Token} {n : Name} {v : Value} :
    NamePhrase ts n → colon.Is .colon → item us v →
    ObjectFieldPhrase (ts ++ colon :: us) ⟨n, v, spanOver (ts ++ colon :: us)⟩

inductive ObjectPhrase : Production ObjectValue
  | mk {ts : List Token} {fs : List ObjectField} :
    Enclosed .braceOpen .braceClose (ObjectFieldPhrase item) ts fs → ObjectPhrase ts ⟨fs, spanOver ts⟩

end

/-- A value. Where no variables are allowed, there are none inside it either. -/
inductive ValuePhrase (references : Bool) : Production Value
  | reference {ts : List Token} {v : Variable} : references = true → VariablePhrase ts v →
    ValuePhrase references ts (.reference v)
  | int {ts : List Token} {v : IntValue} : IntPhrase ts v → ValuePhrase references ts (.int v)
  | float {ts : List Token} {v : FloatValue} : FloatPhrase ts v → ValuePhrase references ts (.float v)
  | string {ts : List Token} {v : StringValue} : StringPhrase ts v →
    ValuePhrase references ts (.string v)
  | word {ts : List Token} {v : Value} : WordPhrase ts v → ValuePhrase references ts v
  | list {ts : List Token} {v : ListValue} : ListPhrase (ValuePhrase references) ts v →
    ValuePhrase references ts (.list v)
  | object {ts : List Token} {v : ObjectValue} : ObjectPhrase (ValuePhrase references) ts v →
    ValuePhrase references ts (.object v)

inductive ArgumentPhrase : Production Argument
  | mk {colon : Token} {ts us : List Token} {n : Name} {v : Value} :
    NamePhrase ts n → colon.Is .colon → ValuePhrase true us v →
    ArgumentPhrase (ts ++ colon :: us) ⟨n, v, spanOver (ts ++ colon :: us)⟩

inductive ArgumentsPhrase : Production (List Argument)
  | mk {ts : List Token} {as : List Argument} : as ≠ [] →
    Enclosed .parenOpen .parenClose ArgumentPhrase ts as → ArgumentsPhrase ts as

inductive DirectivePhrase : Production Directive
  | mk {sign : Token} {ts us : List Token} {n : Name} {as : List Argument} :
    sign.Is .atSign → NamePhrase ts n → OptionalList ArgumentsPhrase us as →
    DirectivePhrase (sign :: (ts ++ us)) ⟨n, as, spanOver (sign :: (ts ++ us))⟩

inductive DirectivesPhrase : Production (List Directive)
  | mk {ts : List Token} {ds : List Directive} : ds ≠ [] → Repeated DirectivePhrase ts ds →
    DirectivesPhrase ts ds

/-! ## Type references -/

/-- The word for null is no name of a type. -/
inductive NamedTypePhrase : Production NamedType
  | mk {t : Token} {n : Name} : t.kind ≠ .null → NamePhrase [t] n → NamedTypePhrase [t] ⟨n, t.span⟩

section

variable (item : Production TypeReference)

inductive ListTypePhrase : Production ListType
  | mk {first last : Token} {ts : List Token} {t : TypeReference} :
    first.Is .bracketOpen → item ts t → last.Is .bracketClose →
    ListTypePhrase (first :: (ts ++ [last])) ⟨t, spanOver (first :: (ts ++ [last]))⟩

inductive NullablePhrase : Production NullableType
  | named {ts : List Token} {t : NamedType} : NamedTypePhrase ts t → NullablePhrase ts (.named t)
  | list {ts : List Token} {t : ListType} : ListTypePhrase item ts t → NullablePhrase ts (.list t)

inductive NonNullPhrase : Production NonNullType
  | mk {bang : Token} {ts : List Token} {t : NullableType} :
    NullablePhrase item ts t → bang.Is .bang → NonNullPhrase (ts ++ [bang]) ⟨t, spanOver (ts ++ [bang])⟩

end

inductive TypePhrase : Production TypeReference
  | named {ts : List Token} {t : NamedType} : NamedTypePhrase ts t → TypePhrase ts (.named t)
  | list {ts : List Token} {t : ListType} : ListTypePhrase TypePhrase ts t → TypePhrase ts (.list t)
  | nonNull {ts : List Token} {t : NonNullType} : NonNullPhrase TypePhrase ts t →
    TypePhrase ts (.nonNull t)

/-! ## Selections -/

inductive AliasPhrase : Production Alias
  | mk {colon : Token} {ts : List Token} {n : Name} : NamePhrase ts n → colon.Is .colon →
    AliasPhrase (ts ++ [colon]) ⟨n, spanOver (ts ++ [colon])⟩

/-- The word before a type condition is no name of a fragment. -/
inductive FragmentNamePhrase : Production Name
  | mk {t : Token} {n : Name} : ¬ t.IsWord "on" → NamePhrase [t] n → FragmentNamePhrase [t] n

inductive TypeConditionPhrase : Production TypeCondition
  | mk {on : Token} {ts : List Token} {t : NamedType} : on.IsWord "on" → NamedTypePhrase ts t →
    TypeConditionPhrase (on :: ts) ⟨t, spanOver (on :: ts)⟩

inductive FragmentSpreadPhrase : Production FragmentSpread
  | mk {dots : Token} {ts us : List Token} {n : Name} {ds : List Directive} :
    dots.Is .ellipsis → FragmentNamePhrase ts n → OptionalList DirectivesPhrase us ds →
    FragmentSpreadPhrase (dots :: (ts ++ us)) ⟨n, ds, spanOver (dots :: (ts ++ us))⟩

section

variable (sub : Production SelectionSet)

inductive FieldPhrase : Production Field
  | mk {ts us vs ws xs : List Token} {a : Option Alias} {n : Name} {as : List Argument}
    {ds : List Directive} {s : Option SelectionSet} :
    Optional AliasPhrase ts a → NamePhrase us n → OptionalList ArgumentsPhrase vs as →
    OptionalList DirectivesPhrase ws ds → Optional sub xs s →
    FieldPhrase (ts ++ (us ++ (vs ++ (ws ++ xs))))
      ⟨a, n, as, ds, s, spanOver (ts ++ (us ++ (vs ++ (ws ++ xs))))⟩

inductive InlineFragmentPhrase : Production InlineFragment
  | mk {dots : Token} {ts us vs : List Token} {t : Option TypeCondition} {ds : List Directive}
    {s : SelectionSet} :
    dots.Is .ellipsis → Optional TypeConditionPhrase ts t → OptionalList DirectivesPhrase us ds →
    sub vs s →
    InlineFragmentPhrase (dots :: (ts ++ (us ++ vs))) ⟨t, ds, s, spanOver (dots :: (ts ++ (us ++ vs)))⟩

inductive SelectionPhrase : Production Selection
  | field {ts : List Token} {f : Field} : FieldPhrase sub ts f → SelectionPhrase ts (.field f)
  | fragmentSpread {ts : List Token} {f : FragmentSpread} : FragmentSpreadPhrase ts f →
    SelectionPhrase ts (.fragmentSpread f)
  | inlineFragment {ts : List Token} {f : InlineFragment} : InlineFragmentPhrase sub ts f →
    SelectionPhrase ts (.inlineFragment f)

end

inductive SelectionSetPhrase : Production SelectionSet
  | mk {ts : List Token} {ss : List Selection} : ss ≠ [] →
    Enclosed .braceOpen .braceClose (SelectionPhrase SelectionSetPhrase) ts ss →
    SelectionSetPhrase ts ⟨ss, spanOver ts⟩

/-! ## Definitions -/

inductive DefaultPhrase : Production Value
  | mk {equals : Token} {ts : List Token} {v : Value} : equals.Is .equals → ValuePhrase false ts v →
    DefaultPhrase (equals :: ts) v

inductive VariableDefinitionPhrase : Production VariableDefinition
  | mk {colon : Token} {ts us vs : List Token} {v : Variable} {t : TypeReference} {d : Option Value} :
    VariablePhrase ts v → colon.Is .colon → TypePhrase us t → Optional DefaultPhrase vs d →
    VariableDefinitionPhrase (ts ++ colon :: (us ++ vs)) ⟨v, t, d, spanOver (ts ++ colon :: (us ++ vs))⟩

inductive VariableDefinitionsPhrase : Production (List VariableDefinition)
  | mk {ts : List Token} {ds : List VariableDefinition} : ds ≠ [] →
    Enclosed .parenOpen .parenClose VariableDefinitionPhrase ts ds → VariableDefinitionsPhrase ts ds

inductive OperationTypePhrase : Production OperationKind
  | mk {t : Token} {k : OperationKind} : t.IsWord k.text → OperationTypePhrase [t] k

/-- A selection set alone is a query. -/
inductive OperationPhrase : Production OperationDefinition
  | shorthand {ts : List Token} {s : SelectionSet} : SelectionSetPhrase ts s →
    OperationPhrase ts ⟨.query, none, [], [], s, spanOver ts⟩
  | mk {ts us vs ws xs : List Token} {k : OperationKind} {n : Option Name}
    {vds : List VariableDefinition} {ds : List Directive} {s : SelectionSet} :
    OperationTypePhrase ts k → Optional NamePhrase us n → OptionalList VariableDefinitionsPhrase vs vds →
    OptionalList DirectivesPhrase ws ds → SelectionSetPhrase xs s →
    OperationPhrase (ts ++ (us ++ (vs ++ (ws ++ xs))))
      ⟨k, n, vds, ds, s, spanOver (ts ++ (us ++ (vs ++ (ws ++ xs))))⟩

inductive FragmentPhrase : Production FragmentDefinition
  | mk {keyword : Token} {ts us vs ws : List Token} {n : Name} {t : TypeCondition}
    {ds : List Directive} {s : SelectionSet} :
    keyword.IsWord "fragment" → FragmentNamePhrase ts n → TypeConditionPhrase us t →
    OptionalList DirectivesPhrase vs ds → SelectionSetPhrase ws s →
    FragmentPhrase (keyword :: (ts ++ (us ++ (vs ++ ws))))
      ⟨n, t, ds, s, spanOver (keyword :: (ts ++ (us ++ (vs ++ ws))))⟩

inductive DefinitionPhrase : Production Definition
  | operation {ts : List Token} {d : OperationDefinition} : OperationPhrase ts d →
    DefinitionPhrase ts (.operation d)
  | fragment {ts : List Token} {d : FragmentDefinition} : FragmentPhrase ts d →
    DefinitionPhrase ts (.fragment d)

inductive DocumentPhrase : Production Document
  | mk {ts : List Token} {ds : List Definition} : ds ≠ [] → Repeated DefinitionPhrase ts ds →
    DocumentPhrase ts ⟨ds, spanOver ts⟩

/-! ## Symbols -/

/-- The constructs that a list of tokens can be derived as from a symbol. -/
def Derives : GrammarSymbol → Production Construct
  | .document => Wrapped .document DocumentPhrase
  | .definition => Wrapped .definition DefinitionPhrase
  | .operationDefinition => Wrapped .operationDefinition OperationPhrase
  | .operationType => Wrapped .operationType OperationTypePhrase
  | .variableDefinitions => Wrapped .variableDefinitions VariableDefinitionsPhrase
  | .variableDefinition => Wrapped .variableDefinition VariableDefinitionPhrase
  | .selectionSet => Wrapped .selectionSet SelectionSetPhrase
  | .selection => Wrapped .selection (SelectionPhrase SelectionSetPhrase)
  | .field => Wrapped .field (FieldPhrase SelectionSetPhrase)
  | .responseAlias => Wrapped .responseAlias AliasPhrase
  | .arguments => Wrapped .arguments ArgumentsPhrase
  | .argument => Wrapped .argument ArgumentPhrase
  | .directives => Wrapped .directives DirectivesPhrase
  | .directive => Wrapped .directive DirectivePhrase
  | .fragmentSpread => Wrapped .fragmentSpread FragmentSpreadPhrase
  | .fragmentName => Wrapped .fragmentName FragmentNamePhrase
  | .inlineFragment => Wrapped .inlineFragment (InlineFragmentPhrase SelectionSetPhrase)
  | .fragmentDefinition => Wrapped .fragmentDefinition FragmentPhrase
  | .typeCondition => Wrapped .typeCondition TypeConditionPhrase
  | .type => Wrapped .type TypePhrase
  | .namedType => Wrapped .namedType NamedTypePhrase
  | .listType => Wrapped .listType (ListTypePhrase TypePhrase)
  | .nonNullType => Wrapped .nonNullType (NonNullPhrase TypePhrase)
  | .value => Wrapped .value (ValuePhrase true)
  | .constValue => Wrapped .constValue (ValuePhrase false)
  | .booleanOrNullOrEnum => Wrapped .booleanOrNullOrEnum WordPhrase
  | .reference => Wrapped .reference VariablePhrase
  | .listValue => Wrapped .listValue (ListPhrase (ValuePhrase true))
  | .objectValue => Wrapped .objectValue (ObjectPhrase (ValuePhrase true))
  | .intValue => Wrapped .intValue IntPhrase
  | .floatValue => Wrapped .floatValue FloatPhrase
  | .stringValue => Wrapped .stringValue StringPhrase
  | .name => Wrapped .name NamePhrase

end GraphQLSyntax
