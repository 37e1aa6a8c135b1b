import GraphQLSyntax.Node.Walk

/-!
# Nodes as a tree

The nodes directly inside a node, in the order in which they are written. A walk lists a node and then the walks of
its children, so what passes from each node to its children holds of all nodes in a walk.
-/

set_option autoImplicit false

namespace GraphQLSyntax

/-! ## Nodes of several kinds -/

def Value.node : Value → Node
  | .boolean v => .booleanValue v
  | .enum v => .enumValue v
  | .float v => .floatValue v
  | .int v => .intValue v
  | .list v => .listValue v
  | .null v => .nullValue v
  | .object v => .objectValue v
  | .string v => .stringValue v
  | .reference v => .reference v

def Selection.node : Selection → Node
  | .field s => .field s
  | .fragmentSpread s => .fragmentSpread s
  | .inlineFragment s => .inlineFragment s

def Definition.node : Definition → Node
  | .fragment d => .fragmentDefinition d
  | .operation d => .operationDefinition d

namespace Node

/-- The nodes directly inside a node. -/
def children : Node → List Node
  | document d => d.definitions.map Definition.node
  | operationDefinition d => d.name.toList.map name ++ (d.variableDefinitions.map variableDefinition ++
      (d.directives.map directive ++ [selectionSet d.selectionSet]))
  | fragmentDefinition d =>
    name d.name :: typeCondition d.typeCondition :: (d.directives.map directive ++ [selectionSet d.selectionSet])
  | variableDefinition d => reference d.declared :: type d.type :: d.defaultValue.toList.map Value.node
  | selectionSet s => s.selections.map Selection.node
  | field f => f.responseAlias.toList.map responseAlias ++ (name f.name :: (f.arguments.map argument ++
      (f.directives.map directive ++ f.selectionSet.toList.map selectionSet)))
  | responseAlias a => [name a.name]
  | argument a => [name a.name, a.value.node]
  | directive d => name d.name :: d.arguments.map argument
  | fragmentSpread s => name s.name :: s.directives.map directive
  | inlineFragment f => f.typeCondition.toList.map typeCondition ++
      (f.directives.map directive ++ [selectionSet f.selectionSet])
  | typeCondition t => [namedType t.namedType]
  | namedType t => [name t.name]
  | type (.list t) => [listType t]
  | type (.named t) => [namedType t]
  | type (.nonNull t) => [nonNullType t]
  | listType t => [type t.item]
  | nonNullType t => [nullableType t.inner]
  | nullableType (.list t) => [listType t]
  | nullableType (.named t) => [namedType t]
  | reference v => [name v.name]
  | listValue v => v.values.map Value.node
  | objectValue v => v.fields.map objectField
  | objectField f => [name f.name, f.value.node]
  | name _ | booleanValue _ | enumValue _ | floatValue _ | intValue _ | nullValue _ | stringValue _ => []

/-- A node and the nodes inside it. -/
def walk : Node → List Node
  | document d => d.walk
  | operationDefinition d => d.walk
  | fragmentDefinition d => d.walk
  | variableDefinition d => d.walk
  | selectionSet s => s.walk
  | field f => f.walk
  | responseAlias a => a.walk
  | argument a => a.walk
  | directive d => d.walk
  | fragmentSpread s => s.walk
  | inlineFragment f => f.walk
  | typeCondition t => t.walk
  | namedType t => t.walk
  | type t => t.walk
  | listType t => t.walk
  | nonNullType t => t.walk
  | nullableType t => nullableType t :: t.walk
  | reference v => v.walk
  | listValue v => v.walk
  | objectValue v => v.walk
  | objectField f => f.walk
  | leaf => [leaf]

end Node

/-- The outermost nodes of a construct. -/
def Construct.roots : Construct → List Node
  | document d => [.document d]
  | definition d => [d.node]
  | operationDefinition d => [.operationDefinition d]
  | operationType _ => []
  | variableDefinitions ds => ds.map .variableDefinition
  | variableDefinition d => [.variableDefinition d]
  | selectionSet s => [.selectionSet s]
  | selection s => [s.node]
  | field f => [.field f]
  | responseAlias a => [.responseAlias a]
  | arguments as => as.map .argument
  | argument a => [.argument a]
  | directives ds => ds.map .directive
  | directive d => [.directive d]
  | fragmentSpread s => [.fragmentSpread s]
  | fragmentName n => [.name n]
  | inlineFragment f => [.inlineFragment f]
  | fragmentDefinition d => [.fragmentDefinition d]
  | typeCondition t => [.typeCondition t]
  | type t => [.type t]
  | namedType t => [.namedType t]
  | listType t => [.listType t]
  | nonNullType t => [.nonNullType t]
  | value v => [v.node]
  | constValue v => [v.node]
  | booleanOrNullOrEnum v => [v.node]
  | reference v => [.reference v]
  | listValue v => [.listValue v]
  | objectValue v => [.objectValue v]
  | intValue v => [.intValue v]
  | floatValue v => [.floatValue v]
  | stringValue v => [.stringValue v]
  | name n => [.name n]

theorem Value.span_node (v : Value) : v.node.span = v.span := by
  cases v <;> rfl

theorem Selection.span_node (s : Selection) : s.node.span = s.span := by
  cases s <;> rfl

theorem Definition.span_node (d : Definition) : d.node.span = d.span := by
  cases d <;> rfl

/-! ## Walks -/

theorem Value.walk_node (v : Value) : v.node.walk = v.walk := by
  cases v <;> rw [Value.walk] <;> rfl

theorem Selection.walk_node (s : Selection) : s.node.walk = s.walk := by
  cases s <;> rw [Selection.walk] <;> rfl

theorem Definition.walk_node (d : Definition) : d.node.walk = d.walk := by
  cases d <;> rfl

theorem Value.walkAll_eq (vs : List Value) : Value.walkAll vs = vs.flatMap Value.walk := by
  induction vs with
  | nil => rfl
  | cons v vs ih => rw [Value.walkAll, ih, List.flatMap_cons]

theorem ObjectField.walkAll_eq (fs : List ObjectField) : ObjectField.walkAll fs = fs.flatMap ObjectField.walk := by
  induction fs with
  | nil => rfl
  | cons f fs ih => rw [ObjectField.walkAll, ih, List.flatMap_cons]

theorem Selection.walkAll_eq (ss : List Selection) : Selection.walkAll ss = ss.flatMap Selection.walk := by
  induction ss with
  | nil => rfl
  | cons s ss ih => rw [Selection.walkAll, ih, List.flatMap_cons]

theorem SelectionSet.walkOptional_eq (s : Option SelectionSet) :
    SelectionSet.walkOptional s = s.toList.flatMap SelectionSet.walk := by
  cases s <;> simp [SelectionSet.walkOptional]

/-- The walks of some nodes, taken from where the nodes come from. -/
theorem flatMap_walk_map {α : Type} {root : α → Node} {walk : α → List Node} (h : ∀ a, (root a).walk = walk a)
    (as : List α) : (as.map root).flatMap Node.walk = as.flatMap walk := by
  rw [List.flatMap_map]
  exact congrArg as.flatMap (funext h)

/-- A walk goes through the children one after the other. -/
theorem Node.walk_eq (n : Node) : n.walk = n :: n.children.flatMap Node.walk := by
  have hNames : ∀ ns : List Name, (ns.map name).flatMap walk = ns.map name := by
    intro ns
    rw [flatMap_walk_map fun _ => rfl, List.map_eq_flatMap]
    rfl
  cases n with
  | document d => rw [children, flatMap_walk_map Definition.walk_node, walk, Document.walk]
  | operationDefinition d =>
    simp only [children, walk, List.flatMap_append, hNames, flatMap_walk_map fun _ => rfl, List.flatMap_singleton,
      OperationDefinition.walk, List.append_assoc]
  | fragmentDefinition d =>
    simp only [children, walk, List.flatMap_append, flatMap_walk_map fun _ => rfl, List.flatMap_cons, List.flatMap_nil,
      FragmentDefinition.walk, List.append_assoc, List.append_nil, List.singleton_append]
  | variableDefinition d =>
    simp only [children, walk, List.flatMap_cons, flatMap_walk_map Value.walk_node, VariableDefinition.walk,
      List.append_assoc]
  | selectionSet s =>
    cases s
    rw [children, flatMap_walk_map Selection.walk_node, walk, SelectionSet.walk, Selection.walkAll_eq]
  | field f =>
    cases f
    simp only [children, List.flatMap_append, List.flatMap_cons, flatMap_walk_map fun _ => rfl, walk, Field.walk,
      Field.walkHead, SelectionSet.walkOptional_eq, List.append_assoc]
  | argument a =>
    rw [children, List.flatMap_cons, List.flatMap_singleton, Value.walk_node]
    rfl
  | directive d =>
    simp only [children, walk, List.flatMap_cons, flatMap_walk_map fun _ => rfl, Directive.walk, List.singleton_append]
  | fragmentSpread s =>
    simp only [children, walk, List.flatMap_cons, flatMap_walk_map fun _ => rfl, FragmentSpread.walk,
      List.singleton_append]
  | inlineFragment f =>
    cases f
    simp only [children, walk, List.flatMap_append, flatMap_walk_map fun _ => rfl, List.flatMap_singleton,
      InlineFragment.walk, List.append_assoc]
  | type t =>
    cases t <;>
      simp only [children, walk, TypeReference.walk, List.flatMap_singleton]
  | listType t =>
    cases t
    simp only [children, walk, ListType.walk, List.flatMap_singleton]
  | nonNullType t =>
    cases t
    simp only [children, walk, NonNullType.walk, List.flatMap_singleton]
  | nullableType t =>
    cases t <;>
      simp only [children, walk, NullableType.walk, List.flatMap_singleton]
  | listValue v =>
    cases v
    rw [children, flatMap_walk_map Value.walk_node, walk, ListValue.walk, Value.walkAll_eq]
  | objectValue v =>
    cases v
    rw [children, flatMap_walk_map fun _ => rfl, walk, ObjectValue.walk, ObjectField.walkAll_eq]
    rfl
  | objectField f =>
    cases f
    rw [children, List.flatMap_cons, List.flatMap_singleton, Value.walk_node, walk, ObjectField.walk]
    rfl
  | responseAlias | typeCondition | namedType | reference | name | booleanValue | enumValue | floatValue | intValue
  | nullValue | stringValue => rfl

theorem Construct.walk_eq (n : Construct) : n.walk = n.roots.flatMap Node.walk := by
  cases n with
  | variableDefinitions | arguments | directives =>
    rw [roots, flatMap_walk_map fun _ => rfl]
    rfl
  | definition d => rw [roots, List.flatMap_singleton, Definition.walk_node, walk]
  | selection s => rw [roots, List.flatMap_singleton, Selection.walk_node, walk]
  | value v | constValue v | booleanOrNullOrEnum v => rw [roots, List.flatMap_singleton, Value.walk_node, walk]
  | operationType => rfl
  | _ => exact (List.append_nil _).symm

/-- What every node passes on to its children holds of all nodes inside one for which it holds. -/
theorem Node.forall_walk {P : Node → Prop} (hStep : ∀ n, P n → ∀ m ∈ n.children, P m) {n : Node} (h : P n) :
    ∀ m ∈ n.walk, P m := by
  induction hLength : n.walk.length using Nat.strongRecOn generalizing n with
  | ind length ih =>
    subst hLength
    intro m hm
    rw [n.walk_eq] at hm
    rcases List.mem_cons.mp hm with rfl | hm
    · exact h
    · obtain ⟨k, hk, hm⟩ := List.mem_flatMap.mp hm
      have hShorter : k.walk.length < n.walk.length := by
        have hWalk := List.sublist_flatten_of_mem (List.mem_map_of_mem hk : k.walk ∈ n.children.map Node.walk)
        rw [n.walk_eq, List.length_cons, List.flatMap]
        exact Nat.lt_succ_of_le hWalk.length_le
      exact ih _ hShorter (hStep n h k hk) rfl m hm

theorem Construct.forall_walk {P : Node → Prop} (hStep : ∀ n, P n → ∀ m ∈ n.children, P m) {n : Construct}
    (h : ∀ m ∈ n.roots, P m) : ∀ m ∈ n.walk, P m := by
  intro m hm
  rw [n.walk_eq] at hm
  obtain ⟨root, hRoot, hm⟩ := List.mem_flatMap.mp hm
  exact Node.forall_walk hStep (h root hRoot) m hm

end GraphQLSyntax
