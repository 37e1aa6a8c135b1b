import GraphQLSyntax.Proofs.Grammar.Nesting
import GraphQLSyntax.Proofs.Tree.Layout

/-!
# Nodes as constructs

Most nodes are what some symbol stands for, so a text that holds only such a node is a construct of its own. It is
derived from the tokens that the node is derived from, and nested no deeper than what the node lies in.
-/

set_option autoImplicit false

namespace GraphQLSyntax

/-- A node as a construct of its own symbol, and the parts of a node that are so only where they stand. Values inside
others and default values are such parts, and so are names of fragments. -/
def Node.readings : Node → List Construct
  | document d => .document d :: d.definitions.map .definition
  | operationDefinition d => [.operationDefinition d]
  | fragmentDefinition d => [.fragmentDefinition d, .fragmentName d.name]
  | variableDefinition d => .variableDefinition d :: d.defaultValue.toList.map .constValue
  | selectionSet s => .selectionSet s :: s.selections.map .selection
  | field f => [.field f]
  | responseAlias a => [.responseAlias a]
  | argument a => [.argument a, .value a.value]
  | directive d => [.directive d]
  | fragmentSpread s => [.fragmentSpread s, .fragmentName s.name]
  | inlineFragment f => [.inlineFragment f]
  | typeCondition t => [.typeCondition t]
  | namedType t => [.namedType t]
  | type t => [.type t]
  | listType t => [.listType t]
  | nonNullType t => [.nonNullType t]
  | nullableType _ => []
  | name n => [.name n]
  | reference v => [.reference v]
  | listValue v => .listValue v :: v.values.map .value
  | objectValue v => [.objectValue v]
  | objectField f => [.value f.value]
  | booleanValue v => [.booleanOrNullOrEnum (.boolean v)]
  | enumValue v => [.booleanOrNullOrEnum (.enum v)]
  | nullValue v => [.booleanOrNullOrEnum (.null v)]
  | floatValue v => [.floatValue v]
  | intValue v => [.intValue v]
  | stringValue v => [.stringValue v]

theorem Node.isSpanned_readings (m : Node) : ∀ c ∈ m.readings, c.isSpanned = true := by
  cases m <;> simp [readings, Construct.isSpanned]

/-! ## Tokens -/

section

variable {ts : List Token}

/-- What is read off a node is derived from some of its tokens. -/
theorem Node.Phrase.readings {m : Node} (h : m.Phrase ts) :
    ∀ c ∈ m.readings, ∃ us, us <:+: ts ∧ Derives c.symbol us c := by
  cases m with
  | document d =>
    refine List.forall_mem_cons.mpr ⟨⟨ts, List.infix_rfl, d, h, rfl⟩, List.forall_mem_map.mpr ?_⟩
    obtain ⟨-, hItems⟩ := h
    intro d hd
    obtain ⟨us, hInfix, hPhrase⟩ := hItems.infix_of_mem d hd
    exact ⟨us, hInfix, d, hPhrase, rfl⟩
  | fragmentDefinition d =>
    refine List.forall_mem_cons.mpr ⟨⟨ts, List.infix_rfl, d, h, rfl⟩, List.forall_mem_singleton.mpr ?_⟩
    obtain ⟨-, hName, -, -, -⟩ := h
    exact ⟨_, (List.prefix_append _ _).isInfix.trans (List.suffix_cons _ _).isInfix, _, hName, rfl⟩
  | fragmentSpread s =>
    refine List.forall_mem_cons.mpr ⟨⟨ts, List.infix_rfl, s, h, rfl⟩, List.forall_mem_singleton.mpr ?_⟩
    obtain ⟨-, hName, -⟩ := h
    exact ⟨_, (List.prefix_append _ _).isInfix.trans (List.suffix_cons _ _).isInfix, _, hName, rfl⟩
  | variableDefinition d =>
    refine List.forall_mem_cons.mpr ⟨⟨ts, List.infix_rfl, d, h, rfl⟩, List.forall_mem_map.mpr ?_⟩
    cases h with
    | @mk colon ts us vs _ _ _ _ _ _ hDefault =>
      intro v hv
      cases hDefault with
      | absent => cases hv
      | present hDefault =>
        obtain rfl := List.mem_singleton.mp hv
        cases hDefault with
        | @mk equals ws _ _ hValue => exact ⟨ws, ⟨ts ++ colon :: (us ++ [equals]), [], by simp⟩, v, hValue, rfl⟩
  | selectionSet s =>
    refine List.forall_mem_cons.mpr ⟨⟨ts, List.infix_rfl, s, h, rfl⟩, List.forall_mem_map.mpr ?_⟩
    obtain ⟨-, hItems⟩ := h
    intro s hs
    obtain ⟨us, hInfix, hPhrase⟩ := hItems.infix_of_mem s hs
    exact ⟨us, hInfix, s, hPhrase, rfl⟩
  | argument a =>
    refine List.forall_mem_cons.mpr ⟨⟨ts, List.infix_rfl, a, h, rfl⟩, List.forall_mem_singleton.mpr ?_⟩
    obtain ⟨-, -, hValue⟩ := h
    exact ⟨_, (List.suffix_cons _ _).isInfix.trans (List.suffix_append _ _).isInfix, _, hValue, rfl⟩
  | objectField f =>
    refine List.forall_mem_singleton.mpr ?_
    obtain ⟨-, -, hValue⟩ := h
    exact ⟨_, (List.suffix_cons _ _).isInfix.trans (List.suffix_append _ _).isInfix, _, hValue, rfl⟩
  | listValue v =>
    refine List.forall_mem_cons.mpr ⟨⟨ts, List.infix_rfl, v, h, rfl⟩, List.forall_mem_map.mpr ?_⟩
    obtain ⟨hItems⟩ := h
    intro v hv
    obtain ⟨us, hInfix, hPhrase⟩ := hItems.infix_of_mem v hv
    exact ⟨us, hInfix, v, hPhrase, rfl⟩
  | nullableType => exact List.forall_mem_nil _
  | _ => exact List.forall_mem_singleton.mpr ⟨ts, List.infix_rfl, _, h, rfl⟩

end

/-! ## Nesting -/

theorem nesting_le_deepest {α : Type} {nesting : α → Nat} {as : List α} :
    ∀ a ∈ as, nesting a ≤ deepest nesting as := by
  induction as with
  | nil => exact List.forall_mem_nil _
  | cons b as ih =>
    intro a ha
    rcases List.mem_cons.mp ha with rfl | ha
    · exact Nat.le_max_left _ _
    · exact Nat.le_trans (ih a ha) (Nat.le_max_right _ _)

def Node.nesting : Node → Nat
  | document d => d.nesting
  | operationDefinition d => d.nesting
  | fragmentDefinition d => d.nesting
  | variableDefinition d => d.nesting
  | selectionSet s => s.nesting
  | field f => f.nesting
  | argument a => a.nesting
  | directive d => d.nesting
  | fragmentSpread s => s.nesting
  | inlineFragment f => f.nesting
  | type t => t.nesting
  | listType t => t.nesting
  | nonNullType t => t.nesting
  | nullableType t => t.nesting
  | listValue v => v.nesting
  | objectValue v => v.nesting
  | objectField f => f.nesting
  | responseAlias _ | typeCondition _ | namedType _ | name _ | reference _ | booleanValue _ | enumValue _
  | floatValue _ | intValue _ | nullValue _ | stringValue _ => 0

theorem Value.nesting_node (v : Value) : v.node.nesting ≤ v.nesting := by
  cases v <;> simp [Value.node, Node.nesting, Value.nesting, Value.inside]

theorem Selection.nesting_node (s : Selection) : s.node.nesting = s.nesting := by
  cases s <;> rfl

theorem Definition.nesting_node (d : Definition) : d.node.nesting = d.nesting := by
  cases d <;> rfl

section

variable {α : Type} (root : α → Node) (nesting : α → Nat) (hRoot : ∀ a, (root a).nesting ≤ nesting a) {n : Nat}
include hRoot

theorem forall_nesting_map {as : List α} (h : deepest nesting as ≤ n) : ∀ m ∈ as.map root, m.nesting ≤ n :=
  List.forall_mem_map.mpr fun a ha => Nat.le_trans (hRoot a) (Nat.le_trans (nesting_le_deepest a ha) h)

theorem forall_nesting_optional {a : Option α} (h : optionalNesting nesting a ≤ n) :
    ∀ m ∈ a.toList.map root, m.nesting ≤ n := by
  cases a with
  | none => exact List.forall_mem_nil _
  | some a => exact List.forall_mem_singleton.mpr (Nat.le_trans (hRoot a) h)

end

theorem SelectionSet.optionalNesting_eq (s : Option SelectionSet) :
    SelectionSet.optionalNesting s = GraphQLSyntax.optionalNesting SelectionSet.nesting s := by
  cases s <;> rfl

/-- Children are nested no deeper than the node that they are in. -/
theorem Node.nesting_children (n : Node) : ∀ m ∈ n.children, m.nesting ≤ n.nesting := by
  have hDirectives := fun ds n => @forall_nesting_map _ directive Directive.nesting (fun _ => Nat.le_refl _) n ds
  have hArguments := fun as n => @forall_nesting_map _ argument Argument.nesting (fun _ => Nat.le_refl _) n as
  cases n with
  | document d =>
    exact forall_nesting_map Definition.node Definition.nesting (fun d => Nat.le_of_eq (Definition.nesting_node d)) (Nat.le_refl _)
  | operationDefinition d =>
    have hNesting : d.nesting = max (max _ _) _ := rfl
    simp only [children, List.forall_mem_append, List.forall_mem_singleton]
    refine ⟨?_, ?_, hDirectives _ _ ?_, ?_⟩
    · exact forall_nesting_optional name (fun _ => 0) (fun _ => Nat.le_refl _) (by cases d.name <;> exact Nat.zero_le _)
    · apply forall_nesting_map variableDefinition VariableDefinition.nesting (fun _ => Nat.le_refl _)
      rw [nesting]
      omega
    · rw [nesting]
      omega
    · rw [nesting, nesting]
      omega
  | fragmentDefinition d =>
    have hNesting : d.nesting = max _ _ := rfl
    refine List.forall_mem_cons.mpr ⟨Nat.zero_le _, List.forall_mem_cons.mpr ⟨Nat.zero_le _, ?_⟩⟩
    refine List.forall_mem_append.mpr ⟨hDirectives _ _ ?_, List.forall_mem_singleton.mpr ?_⟩
    · simp only [nesting]
      omega
    · simp only [nesting]
      omega
  | variableDefinition d =>
    have hNesting : d.nesting = max _ _ := rfl
    simp only [children, List.forall_mem_cons]
    refine ⟨Nat.zero_le _, ?_, ?_⟩
    · simp only [nesting]
      omega
    · apply forall_nesting_optional Value.node Value.nesting Value.nesting_node
      simp only [nesting]
      omega
  | selectionSet s =>
    apply forall_nesting_map Selection.node Selection.nesting (fun s => Nat.le_of_eq (Selection.nesting_node s))
    cases s
    rw [nesting, SelectionSet.nesting, SelectionSet.inside, Selection.deepestOf_eq]
    exact Nat.le_succ _
  | field f =>
    have hNesting : f.nesting = max (max (deepest Argument.nesting f.arguments) (deepest Directive.nesting f.directives))
        (optionalNesting SelectionSet.nesting f.selectionSet) := by
      cases f
      rw [Field.nesting, SelectionSet.optionalNesting_eq]
    simp only [children, List.forall_mem_append, List.forall_mem_cons]
    refine ⟨?_, Nat.zero_le _, hArguments _ _ ?_, hDirectives _ _ ?_, ?_⟩
    · exact forall_nesting_optional responseAlias (fun _ => 0) (fun _ => Nat.le_refl _)
        (by cases f.responseAlias <;> exact Nat.zero_le _)
    · simp only [nesting]
      omega
    · simp only [nesting]
      omega
    · apply forall_nesting_optional selectionSet SelectionSet.nesting (fun _ => Nat.le_refl _)
      simp only [nesting]
      omega
  | argument a =>
    exact List.forall_mem_cons.mpr ⟨Nat.zero_le _, List.forall_mem_singleton.mpr a.value.nesting_node⟩
  | directive d =>
    exact List.forall_mem_cons.mpr ⟨Nat.zero_le _, hArguments _ _ (Nat.le_refl _)⟩
  | fragmentSpread s =>
    exact List.forall_mem_cons.mpr ⟨Nat.zero_le _, hDirectives _ _ (Nat.le_refl _)⟩
  | inlineFragment f =>
    have hNesting : f.nesting = max (deepest Directive.nesting f.directives) f.selectionSet.nesting := by
      cases f
      rfl
    simp only [children, List.forall_mem_append, List.forall_mem_singleton]
    refine ⟨?_, hDirectives _ _ ?_, ?_⟩
    · exact forall_nesting_optional typeCondition (fun _ => 0) (fun _ => Nat.le_refl _)
        (by cases f.typeCondition <;> exact Nat.zero_le _)
    · simp only [nesting]
      omega
    · simp only [nesting]
      omega
  | type t =>
    cases t with
    | list t => exact List.forall_mem_singleton.mpr (Nat.le_succ _)
    | named t => exact List.forall_mem_singleton.mpr (Nat.zero_le _)
    | nonNull t => exact List.forall_mem_singleton.mpr (Nat.le_refl _)
  | listType t =>
    cases t
    exact List.forall_mem_singleton.mpr (Nat.le_refl _)
  | nonNullType t =>
    cases t
    exact List.forall_mem_singleton.mpr (Nat.le_succ _)
  | nullableType t =>
    cases t with
    | list t => exact List.forall_mem_singleton.mpr (Nat.le_refl _)
    | named t => exact List.forall_mem_singleton.mpr (Nat.zero_le _)
  | listValue v =>
    cases v
    exact forall_nesting_map Value.node Value.nesting Value.nesting_node (Nat.le_of_eq (Value.deepestOf_eq _).symm)
  | objectValue v =>
    cases v
    exact forall_nesting_map objectField ObjectField.nesting (fun _ => Nat.le_refl _)
      (Nat.le_of_eq (ObjectField.deepestOf_eq _).symm)
  | objectField f =>
    cases f
    exact List.forall_mem_cons.mpr ⟨Nat.zero_le _, List.forall_mem_singleton.mpr (Value.nesting_node _)⟩
  | responseAlias | typeCondition | namedType | reference => exact List.forall_mem_singleton.mpr (Nat.le_refl _)
  | name | booleanValue | enumValue | floatValue | intValue | nullValue | stringValue => exact List.forall_mem_nil _

theorem Node.nesting_readings (n : Node) : ∀ c ∈ n.readings, c.nesting ≤ n.nesting := by
  cases n with
  | document d =>
    exact List.forall_mem_cons.mpr ⟨Nat.le_refl _, List.forall_mem_map.mpr nesting_le_deepest⟩
  | fragmentDefinition d | fragmentSpread s =>
    exact List.forall_mem_cons.mpr ⟨Nat.le_refl _, List.forall_mem_singleton.mpr (Nat.zero_le _)⟩
  | variableDefinition d =>
    refine List.forall_mem_cons.mpr ⟨Nat.le_refl _, List.forall_mem_map.mpr ?_⟩
    intro v hv
    rw [nesting, VariableDefinition.nesting, Option.mem_toList.mp hv]
    exact Nat.le_max_right _ _
  | selectionSet s =>
    refine List.forall_mem_cons.mpr ⟨Nat.le_refl _, List.forall_mem_map.mpr ?_⟩
    cases s
    intro s hs
    rw [nesting, SelectionSet.nesting, SelectionSet.inside, Selection.deepestOf_eq]
    exact Nat.le_succ_of_le (nesting_le_deepest s hs)
  | argument a =>
    exact List.forall_mem_cons.mpr ⟨Nat.le_refl _, List.forall_mem_singleton.mpr (Nat.le_refl _)⟩
  | objectField f =>
    cases f
    exact List.forall_mem_singleton.mpr (Nat.le_refl _)
  | listValue v =>
    refine List.forall_mem_cons.mpr ⟨Nat.le_refl _, List.forall_mem_map.mpr ?_⟩
    cases v
    intro v hv
    rw [nesting, ListValue.nesting, Value.deepestOf_eq]
    exact @nesting_le_deepest _ Value.nesting _ v hv
  | nullableType => exact List.forall_mem_nil _
  | _ => exact List.forall_mem_singleton.mpr (Nat.le_refl _)

theorem Derives.nesting_roots {symbol : GrammarSymbol} {ts : List Token} {n : Construct} (h : Derives symbol ts n) :
    ∀ m ∈ n.roots, m.nesting ≤ n.nesting := by
  cases symbol
  all_goals
    obtain ⟨a, hPhrase, rfl⟩ := h
  case operationType => exact List.forall_mem_nil _
  case variableDefinitions | arguments | directives => exact List.forall_mem_map.mpr nesting_le_deepest
  case definition => exact List.forall_mem_singleton.mpr (Nat.le_of_eq a.nesting_node)
  case selection => exact List.forall_mem_singleton.mpr (Nat.le_of_eq a.nesting_node)
  case value | constValue => exact List.forall_mem_singleton.mpr a.nesting_node
  case booleanOrNullOrEnum =>
    cases hPhrase <;> exact List.forall_mem_singleton.mpr (Nat.le_refl _)
  all_goals exact List.forall_mem_singleton.mpr (Nat.le_refl _)

/-- All that is read off the nodes of a construct is derived from its tokens, and nested no deeper. -/
theorem Derives.readings {symbol : GrammarSymbol} {ts : List Token} {n : Construct} (h : Derives symbol ts n) :
    ∀ m ∈ n.walk, ∀ c ∈ m.readings, c.nesting ≤ n.nesting ∧ ∃ us, us <:+: ts ∧ Derives c.symbol us c := by
  have hNodes : ∀ m ∈ n.walk, m.nesting ≤ n.nesting ∧ ∃ us, us <:+: ts ∧ m.Phrase us := by
    apply Construct.forall_walk
    · rintro m ⟨hNesting, us, hInfix, hPhrase⟩ k hk
      obtain ⟨vs, hInside, hPhrase⟩ := hPhrase.laid.infix_of_mem k hk
      exact ⟨Nat.le_trans (m.nesting_children k hk) hNesting, vs, hInside.trans hInfix, hPhrase⟩
    · exact fun m hm => ⟨h.nesting_roots m hm, h.laid.infix_of_mem m hm⟩
  intro m hm c hc
  obtain ⟨hNesting, us, hInfix, hPhrase⟩ := hNodes m hm
  obtain ⟨vs, hInside, hDerives⟩ := hPhrase.readings c hc
  exact ⟨Nat.le_trans (m.nesting_readings c hc) hNesting, vs, hInside.trans hInfix, hDerives⟩

end GraphQLSyntax
