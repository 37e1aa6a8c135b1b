import Mathlib.Data.List.Chain
import GraphQLSyntax.Proofs.Parsing.Language
import GraphQLSyntax.Proofs.Tree.Readings

/-!
# Levels of nesting

Values, selection sets and list types are the levels that nodes are nested in. What is parsed has no more levels than
the parser counts, and it counts all but the outermost bracket of a list or an object that is parsed for itself.
-/

set_option autoImplicit false

namespace GraphQLSyntax

namespace Node

def isValue : Node → Bool
  | reference _ | listValue _ | objectValue _ | booleanValue _ | enumValue _ | floatValue _ | intValue _ | nullValue _
  | stringValue _ => true
  | _ => false

/-- A value, a selection set or a list type. -/
def isLevel : Node → Bool
  | selectionSet _ | listType _ => true
  | n => n.isValue

/-- The nodes inside a node, at any depth. -/
def inside (n : Node) : List Node := n.children.flatMap walk

/-- How many levels lie inside each other at most, from a node on. -/
def levels : Node → Nat
  | type t => t.inside
  | nonNullType t => t.inside
  | n => n.nesting + n.isValue.toNat

theorem levels_le_nesting {n : Node} (h : n.isValue = false) : n.levels ≤ n.nesting := by
  cases n with
  | type | nonNullType => exact Nat.le_succ _
  | reference | listValue | objectValue | booleanValue | enumValue | floatValue | intValue | nullValue | stringValue =>
    cases h
  | _ => exact Nat.le_refl _

end Node

theorem Value.levels_node (v : Value) : v.node.levels = v.nesting := by
  cases v <;> rfl

theorem Selection.levels_node (s : Selection) : s.node.levels = s.nesting := by
  cases s <;> rfl

theorem Definition.isValue_node (d : Definition) : d.node.isValue = false := by
  cases d <;> rfl

namespace Node

/-- Every level that is left on the way to a child is counted. -/
theorem levels_children (n : Node) : ∀ m ∈ n.children, m.levels + n.isLevel.toNat ≤ n.levels := by
  -- Where no child is a value, what is known of the nesting will do.
  have hPlain : n.isLevel = false → n.levels = n.nesting → (∀ m ∈ n.children, m.isValue = false) →
      ∀ m ∈ n.children, m.levels + n.isLevel.toNat ≤ n.levels := by
    intro hLevel hLevels hValues m hm
    rw [hLevel, hLevels]
    exact Nat.le_trans (levels_le_nesting (hValues m hm)) (n.nesting_children m hm)
  cases n with
  | document d => exact hPlain rfl rfl (List.forall_mem_map.mpr fun d _ => d.isValue_node)
  | operationDefinition | fragmentDefinition | field | directive | fragmentSpread | inlineFragment | responseAlias
  | typeCondition | namedType =>
    apply hPlain rfl rfl
    simp only [children, List.forall_mem_append, List.forall_mem_cons, List.forall_mem_map]
    simp [isValue]
  | variableDefinition d =>
    have hNesting : d.nesting = max (d.type.inside + 1) (optionalNesting Value.nesting d.defaultValue) := rfl
    have hLevels : (variableDefinition d).levels = d.nesting := rfl
    simp only [children, List.forall_mem_cons, List.forall_mem_map, Option.mem_toList, hLevels, hNesting]
    refine ⟨?_, ?_, ?_⟩
    · exact Nat.le_trans (Nat.le_add_left 1 _) (Nat.le_max_left _ _)
    · exact Nat.le_trans (Nat.le_succ _) (Nat.le_max_left _ _)
    · intro v hv
      rw [hv, v.levels_node]
      exact Nat.le_max_right _ _
  | selectionSet s =>
    obtain ⟨selections, span⟩ := s
    refine List.forall_mem_map.mpr fun s hs => ?_
    rw [s.levels_node]
    change s.nesting + 1 ≤ Selection.deepestOf selections + 1
    rw [Selection.deepestOf_eq]
    exact Nat.succ_le_succ (nesting_le_deepest s hs)
  | argument a =>
    exact List.forall_mem_cons.mpr ⟨Nat.zero_le _, List.forall_mem_singleton.mpr (Nat.le_of_eq a.value.levels_node)⟩
  | type t | nullableType t => cases t <;> exact List.forall_mem_singleton.mpr (Nat.le_refl _)
  | listType t | nonNullType t =>
    cases t
    exact List.forall_mem_singleton.mpr (Nat.le_refl _)
  | listValue v =>
    obtain ⟨values, span⟩ := v
    refine List.forall_mem_map.mpr fun v hv => ?_
    rw [v.levels_node]
    change v.nesting + 1 ≤ Value.deepestOf values + 1
    rw [Value.deepestOf_eq]
    exact Nat.succ_le_succ (nesting_le_deepest v hv)
  | objectValue v =>
    obtain ⟨fields, span⟩ := v
    refine List.forall_mem_map.mpr fun f hf => ?_
    change f.nesting + 1 ≤ ObjectField.deepestOf fields + 1
    rw [ObjectField.deepestOf_eq]
    exact Nat.succ_le_succ (nesting_le_deepest f hf)
  | objectField f =>
    obtain ⟨name, value, span⟩ := f
    exact List.forall_mem_cons.mpr ⟨Nat.zero_le _, List.forall_mem_singleton.mpr (Nat.le_of_eq value.levels_node)⟩
  | reference v => exact List.forall_mem_singleton.mpr (Nat.le_refl _)
  | name | booleanValue | enumValue | floatValue | intValue | nullValue | stringValue => exact List.forall_mem_nil _

/-- No more levels lie inside a node than are counted. -/
theorem levels_inside (n : Node) : ∀ m ∈ n.inside, m.levels + n.isLevel.toNat ≤ n.levels := by
  intro m hm
  obtain ⟨child, hChild, hm⟩ := List.mem_flatMap.mp hm
  refine forall_walk (P := fun m => m.levels + n.isLevel.toNat ≤ n.levels) ?_ (n.levels_children child hChild) m hm
  intro k hk m hm
  have hStep := k.levels_children m hm
  omega

theorem levels_pos {n : Node} (h : n.isLevel = true) : 0 < n.levels := by
  cases n with
  | selectionSet s => exact Nat.succ_pos _
  | listType t =>
    cases t
    exact Nat.succ_pos _
  | reference | listValue | objectValue | booleanValue | enumValue | floatValue | intValue | nullValue | stringValue =>
    exact Nat.succ_pos _
  | _ => cases h

/-- Nodes that are levels, each inside the one before. -/
def Tower (chain : List Node) : Prop :=
  chain.IsChain (fun n m => m ∈ n.inside) ∧ ∀ n ∈ chain, n.isLevel = true

theorem Tower.length_le {n : Node} {chain : List Node} (h : Tower (n :: chain)) : (n :: chain).length ≤ n.levels := by
  induction chain generalizing n with
  | nil => exact levels_pos (h.2 n (.head []))
  | cons m chain ih =>
    obtain ⟨hChain, hLevels⟩ := h
    obtain ⟨hInside, hChain⟩ := List.isChain_cons_cons.mp hChain
    have hRest := ih ⟨hChain, fun k hk => hLevels k (.tail n hk)⟩
    have hStep := n.levels_inside m hInside
    rw [hLevels n (.head _)] at hStep
    exact Nat.le_trans (Nat.succ_le_succ hRest) hStep

end Node

/-- Only the brackets of a list or an object that is parsed for itself are not counted. -/
theorem Derives.levels_roots {symbol : GrammarSymbol} {ts : List Token} {c : Construct} (h : Derives symbol ts c) :
    ∀ m ∈ c.roots, m.levels ≤ max 1 c.nesting ∨
      (symbol = .listValue ∨ symbol = .objectValue) ∧ c.roots = [m] ∧ m.isLevel = true ∧ m.levels = c.nesting + 1 := by
  intro m hm
  cases hValue : m.isValue with
  | false =>
    refine .inl (Nat.le_trans (Node.levels_le_nesting hValue) ?_)
    exact Nat.le_trans (h.nesting_roots m hm) (Nat.le_max_right _ _)
  | true =>
    cases symbol
    all_goals
      obtain ⟨a, hPhrase, rfl⟩ := h
    case listValue =>
      rw [List.mem_singleton.mp hm]
      exact .inr ⟨.inl rfl, rfl, rfl, rfl⟩
    case objectValue =>
      rw [List.mem_singleton.mp hm]
      exact .inr ⟨.inr rfl, rfl, rfl, rfl⟩
    case value | constValue =>
      rw [List.mem_singleton.mp hm, a.levels_node]
      exact .inl (Nat.le_max_right _ _)
    case booleanOrNullOrEnum =>
      cases hPhrase <;> (rw [List.mem_singleton.mp hm]; exact .inl (Nat.le_max_left _ _))
    case reference | intValue | floatValue | stringValue =>
      rw [List.mem_singleton.mp hm]
      exact .inl (Nat.le_max_left _ _)
    case operationType => cases hm
    case variableDefinitions | arguments | directives =>
      obtain ⟨_, -, rfl⟩ := List.mem_map.mp hm
      cases hValue
    case definition =>
      rw [List.mem_singleton.mp hm, a.isValue_node] at hValue
      cases hValue
    case selection =>
      cases a <;> (rw [List.mem_singleton.mp hm] at hValue; cases hValue)
    all_goals
      rw [List.mem_singleton.mp hm] at hValue
      cases hValue

/-- What is parsed has at most as many levels inside each other as the limit says, and one more if it is a list or an
object that is parsed for itself. Then the first of them is that list or object. -/
theorem parse_levels (file : Option Path) (source : String) (symbol : GrammarSymbol) (c : Construct)
    (chain : List Node) (h : parse file source symbol = .ok c) (hMem : ∀ n ∈ chain, n ∈ c.walk)
    (hTower : Node.Tower chain) :
    chain.length ≤ maxDepth ∨
      (symbol = .listValue ∨ symbol = .objectValue) ∧ chain.length = maxDepth + 1 ∧ chain.head? = c.roots.head? := by
  obtain ⟨ts, -, -, -, -, hDerives, hNesting⟩ := parse_eq_ok h
  cases chain with
  | nil => exact .inl (Nat.zero_le _)
  | cons n chain =>
    have hLength := hTower.length_le
    have hWalk := hMem n (.head chain)
    rw [c.walk_eq] at hWalk
    obtain ⟨root, hRoot, hWalk⟩ := List.mem_flatMap.mp hWalk
    rw [root.walk_eq] at hWalk
    have hInside : n.levels ≤ root.levels := by
      rcases List.mem_cons.mp hWalk with rfl | hInside
      · exact Nat.le_refl _
      · exact Nat.le_trans (Nat.le_add_right _ _) (root.levels_inside n hInside)
    obtain hRoots | ⟨hSymbol, hRoots, hLevel, hLevels⟩ := hDerives.levels_roots root hRoot
    · have hOne : 1 ≤ maxDepth := by decide
      exact .inl (by omega)
    · rcases List.mem_cons.mp hWalk with rfl | hInside
      · rcases Nat.lt_or_ge maxDepth (n :: chain).length with hMore | hLess
        · exact .inr ⟨hSymbol, by omega, by rw [hRoots]; rfl⟩
        · exact .inl hLess
      · have hStep := root.levels_inside n hInside
        rw [hLevel, hLevels] at hStep
        exact .inl (Nat.le_trans hLength (Nat.le_trans (Nat.le_of_succ_le_succ hStep) hNesting))

/-! ## Lists in lists -/

/-- A list and the lists that come first inside it, down to some depth. -/
def ListValue.firsts : Nat → ListValue → List Node
  | 0, v => [.listValue v]
  | n + 1, v => .listValue v ::
    match v.values with
    | .list w :: _ => w.firsts n
    | _ => []

namespace ListValue

theorem firsts_eq (n : Nat) (v : ListValue) : ∃ chain, v.firsts n = .listValue v :: chain := by
  cases n <;> exact ⟨_, rfl⟩

theorem walk_subset_inside {v w : ListValue} {vs : List Value} (h : v.values = .list w :: vs) :
    ∀ m ∈ w.walk, m ∈ (Node.listValue v).inside := by
  intro m hm
  rw [Node.inside, Node.children, h]
  exact List.mem_append_left _ hm

theorem tower_firsts (n : Nat) (v : ListValue) : Node.Tower (v.firsts n) := by
  have hSingle : ∀ v, Node.Tower [.listValue v] := fun _ =>
    ⟨List.isChain_singleton _, List.forall_mem_singleton.mpr rfl⟩
  induction n generalizing v with
  | zero => exact hSingle v
  | succ n ih =>
    rw [firsts]
    split
    · rename_i w vs hValues
      obtain ⟨hChain, hLevels⟩ := ih w
      obtain ⟨chain, hFirsts⟩ := w.firsts_eq n
      rw [hFirsts] at hChain hLevels ⊢
      have hInside := walk_subset_inside hValues (.listValue w) (by rw [← Node.walk, Node.walk_eq]; exact .head _)
      exact ⟨List.isChain_cons_cons.mpr ⟨hInside, hChain⟩, List.forall_mem_cons.mpr ⟨rfl, hLevels⟩⟩
    · exact hSingle v

theorem mem_firsts (n : Nat) (v : ListValue) : ∀ m ∈ v.firsts n, m ∈ v.walk := by
  have hFirst : ∀ v : ListValue, Node.listValue v ∈ v.walk := fun v => by
    rw [← Node.walk, Node.walk_eq]
    exact .head _
  induction n generalizing v with
  | zero => exact List.forall_mem_singleton.mpr (hFirst v)
  | succ n ih =>
    rw [firsts]
    refine List.forall_mem_cons.mpr ⟨hFirst v, ?_⟩
    split
    · rename_i w vs hValues
      intro m hm
      rw [← Node.walk, Node.walk_eq]
      exact .tail _ (walk_subset_inside hValues m (ih w m hm))
    · exact List.forall_mem_nil _

end ListValue

/-- The lists that come first, if a list was parsed. -/
def Construct.firsts : Construct → List Node
  | .listValue v => v.firsts maxDepth
  | _ => []

/-- One list more inside each other than the limit says. -/
theorem parse_brackets : ∃ v, parse none (String.ofList (List.replicate 65 '[' ++ List.replicate 65 ']')) .listValue =
    .ok (.listValue v) ∧ (v.firsts maxDepth).length = maxDepth + 1 := by
  have hLength : ((parse none (String.ofList (List.replicate 65 '[' ++ List.replicate 65 ']')) .listValue).map
      fun c => c.firsts.length).toOption = some (maxDepth + 1) := by decide +kernel
  cases hParse : parse none (String.ofList (List.replicate 65 '[' ++ List.replicate 65 ']')) .listValue with
  | error e =>
    rw [hParse] at hLength
    cases hLength
  | ok c =>
    obtain ⟨ts, -, -, -, -, ⟨v, -, rfl⟩, -⟩ := parse_eq_ok hParse
    rw [hParse] at hLength
    exact ⟨v, rfl, Option.some.inj hLength⟩

/-- The outermost bracket of a list is not counted. -/
theorem parse_levels_brackets :
    ∃ c chain, parse none (String.ofList (List.replicate 65 '[' ++ List.replicate 65 ']')) .listValue = .ok c ∧
      (∀ n ∈ chain, n ∈ c.walk) ∧ Node.Tower chain ∧ chain.length = maxDepth + 1 ∧ chain.head? = c.roots.head? := by
  obtain ⟨v, hParse, hLength⟩ := parse_brackets
  have hTower := v.tower_firsts maxDepth
  have hMem := v.mem_firsts maxDepth
  refine ⟨.listValue v, v.firsts maxDepth, hParse, hMem, hTower, hLength, ?_⟩
  obtain hLess | ⟨-, -, hHead⟩ := parse_levels none _ .listValue _ _ hParse hMem hTower
  · omega
  · exact hHead

/-- What is accepted may have more levels inside each other than the limit says. -/
theorem parse_levels_exceeded :
    ¬ ∀ (source : String) (symbol : GrammarSymbol) (c : Construct) (chain : List Node),
      parse none source symbol = .ok c → (∀ n ∈ chain, n ∈ c.walk) → Node.Tower chain → chain.length ≤ maxDepth := by
  intro hLimit
  obtain ⟨v, hParse, hLength⟩ := parse_brackets
  have hLess := hLimit _ _ _ _ hParse (v.mem_firsts maxDepth) (v.tower_firsts maxDepth)
  omega

end GraphQLSyntax
