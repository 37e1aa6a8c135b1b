import GraphQLSyntax.Proofs.Grammar.Nesting

/-!
# Nodes without their spans

Erasure takes from a node what depends on how and where it was written: its spans, and whether a string
was a block string. Neither the canonical text nor the nesting depends on that.
-/

set_option autoImplicit false

namespace GraphQLSyntax

def Span.erased : Span := .emptyAt .origin

def Name.erase (n : Name) : Name := ⟨n.value, .erased⟩

def Variable.erase (v : Variable) : Variable := ⟨v.name.erase, .erased⟩

def IntValue.erase (v : IntValue) : IntValue := ⟨v.value, .erased⟩

def FloatValue.erase (v : FloatValue) : FloatValue := ⟨v.value, .erased⟩

def StringValue.erase (v : StringValue) : StringValue := ⟨v.value, false, .erased⟩

def BooleanValue.erase (v : BooleanValue) : BooleanValue := ⟨v.value, .erased⟩

def NullValue.erase (_ : NullValue) : NullValue := ⟨.erased⟩

def EnumValue.erase (v : EnumValue) : EnumValue := ⟨v.value, .erased⟩

mutual

def Value.erase : Value → Value
  | .boolean v => .boolean v.erase
  | .enum v => .enum v.erase
  | .float v => .float v.erase
  | .int v => .int v.erase
  | .list v => .list v.erase
  | .null v => .null v.erase
  | .object v => .object v.erase
  | .string v => .string v.erase
  | .reference v => .reference v.erase

def ListValue.erase : ListValue → ListValue
  | ⟨values, _⟩ => ⟨Value.eraseAll values, .erased⟩

def ObjectValue.erase : ObjectValue → ObjectValue
  | ⟨fields, _⟩ => ⟨ObjectField.eraseAll fields, .erased⟩

def ObjectField.erase : ObjectField → ObjectField
  | ⟨name, value, _⟩ => ⟨name.erase, value.erase, .erased⟩

def Value.eraseAll : List Value → List Value
  | [] => []
  | v :: vs => v.erase :: Value.eraseAll vs

def ObjectField.eraseAll : List ObjectField → List ObjectField
  | [] => []
  | f :: fs => f.erase :: ObjectField.eraseAll fs

end

def NamedType.erase (t : NamedType) : NamedType := ⟨t.name.erase, .erased⟩

mutual

def TypeReference.erase : TypeReference → TypeReference
  | .list t => .list t.erase
  | .named t => .named t.erase
  | .nonNull t => .nonNull t.erase

def ListType.erase : ListType → ListType
  | ⟨item, _⟩ => ⟨item.erase, .erased⟩

def NonNullType.erase : NonNullType → NonNullType
  | ⟨inner, _⟩ => ⟨inner.erase, .erased⟩

def NullableType.erase : NullableType → NullableType
  | .list t => .list t.erase
  | .named t => .named t.erase

end

def Argument.erase (a : Argument) : Argument := ⟨a.name.erase, a.value.erase, .erased⟩

def Directive.erase (d : Directive) : Directive := ⟨d.name.erase, d.arguments.map Argument.erase, .erased⟩

def Alias.erase (a : Alias) : Alias := ⟨a.name.erase, .erased⟩

def TypeCondition.erase (t : TypeCondition) : TypeCondition := ⟨t.namedType.erase, .erased⟩

def FragmentSpread.erase (s : FragmentSpread) : FragmentSpread :=
  ⟨s.name.erase, s.directives.map Directive.erase, .erased⟩

mutual

def SelectionSet.erase : SelectionSet → SelectionSet
  | ⟨selections, _⟩ => ⟨Selection.eraseAll selections, .erased⟩

def Selection.erase : Selection → Selection
  | .field s => .field s.erase
  | .fragmentSpread s => .fragmentSpread s.erase
  | .inlineFragment s => .inlineFragment s.erase

def Field.erase : Field → Field
  | ⟨responseAlias, name, arguments, directives, selectionSet, _⟩ =>
    ⟨responseAlias.map Alias.erase, name.erase, arguments.map Argument.erase,
      directives.map Directive.erase, SelectionSet.eraseOptional selectionSet, .erased⟩

def InlineFragment.erase : InlineFragment → InlineFragment
  | ⟨typeCondition, directives, selectionSet, _⟩ =>
    ⟨typeCondition.map TypeCondition.erase, directives.map Directive.erase, selectionSet.erase, .erased⟩

def SelectionSet.eraseOptional : Option SelectionSet → Option SelectionSet
  | none => none
  | some s => some s.erase

def Selection.eraseAll : List Selection → List Selection
  | [] => []
  | s :: ss => s.erase :: Selection.eraseAll ss

end

def VariableDefinition.erase (d : VariableDefinition) : VariableDefinition :=
  ⟨d.declared.erase, d.type.erase, d.defaultValue.map Value.erase, .erased⟩

def OperationDefinition.erase (o : OperationDefinition) : OperationDefinition :=
  ⟨o.kind, o.name.map Name.erase, o.variableDefinitions.map VariableDefinition.erase,
    o.directives.map Directive.erase, o.selectionSet.erase, .erased⟩

def FragmentDefinition.erase (f : FragmentDefinition) : FragmentDefinition :=
  ⟨f.name.erase, f.typeCondition.erase, f.directives.map Directive.erase, f.selectionSet.erase, .erased⟩

def Definition.erase : Definition → Definition
  | .fragment d => .fragment d.erase
  | .operation d => .operation d.erase

def Document.erase (d : Document) : Document := ⟨d.definitions.map Definition.erase, .erased⟩

def Construct.erase : Construct → Construct
  | document d => document d.erase
  | definition d => definition d.erase
  | operationDefinition d => operationDefinition d.erase
  | operationType k => operationType k
  | variableDefinitions ds => variableDefinitions (ds.map VariableDefinition.erase)
  | variableDefinition d => variableDefinition d.erase
  | selectionSet s => selectionSet s.erase
  | selection s => selection s.erase
  | field f => field f.erase
  | responseAlias a => responseAlias a.erase
  | arguments as => arguments (as.map Argument.erase)
  | argument a => argument a.erase
  | directives ds => directives (ds.map Directive.erase)
  | directive d => directive d.erase
  | fragmentSpread s => fragmentSpread s.erase
  | fragmentName n => fragmentName n.erase
  | inlineFragment f => inlineFragment f.erase
  | fragmentDefinition d => fragmentDefinition d.erase
  | typeCondition t => typeCondition t.erase
  | type t => type t.erase
  | namedType t => namedType t.erase
  | listType t => listType t.erase
  | nonNullType t => nonNullType t.erase
  | value v => value v.erase
  | constValue v => constValue v.erase
  | booleanOrNullOrEnum v => booleanOrNullOrEnum v.erase
  | reference v => reference v.erase
  | listValue v => listValue v.erase
  | objectValue v => objectValue v.erase
  | intValue v => intValue v.erase
  | floatValue v => floatValue v.erase
  | stringValue v => stringValue v.erase
  | name n => name n.erase

theorem Value.eraseAll_eq (vs : List Value) : Value.eraseAll vs = vs.map Value.erase := by
  induction vs with
  | nil => rfl
  | cons v vs ih => rw [Value.eraseAll, ih, List.map_cons]

theorem ObjectField.eraseAll_eq (fs : List ObjectField) :
    ObjectField.eraseAll fs = fs.map ObjectField.erase := by
  induction fs with
  | nil => rfl
  | cons f fs ih => rw [ObjectField.eraseAll, ih, List.map_cons]

theorem Selection.eraseAll_eq (ss : List Selection) : Selection.eraseAll ss = ss.map Selection.erase := by
  induction ss with
  | nil => rfl
  | cons s ss ih => rw [Selection.eraseAll, ih, List.map_cons]

theorem SelectionSet.eraseOptional_eq (s : Option SelectionSet) :
    SelectionSet.eraseOptional s = s.map SelectionSet.erase := by
  cases s <;> rfl

/-! ## Canonical texts -/

mutual

theorem Value.print_erase (v : Value) : v.erase.print = v.print := by
  cases v with
  | list v => exact ListValue.print_erase v
  | object v => exact ObjectValue.print_erase v
  | boolean | enum | float | int | null | string | reference => rfl

theorem ListValue.print_erase (v : ListValue) : v.erase.print = v.print := by
  cases v with
  | mk values span => simp only [ListValue.erase, ListValue.print, Value.printAll_erase values]

theorem ObjectValue.print_erase (v : ObjectValue) : v.erase.print = v.print := by
  cases v with
  | mk fields span => simp only [ObjectValue.erase, ObjectValue.print, ObjectField.printAll_erase fields]

theorem ObjectField.print_erase (f : ObjectField) : f.erase.print = f.print := by
  cases f with
  | mk name value span =>
    simp only [ObjectField.erase, ObjectField.print, Value.print_erase value]
    rfl

theorem Value.printAll_erase (vs : List Value) :
    Value.printAll (Value.eraseAll vs) = Value.printAll vs := by
  cases vs with
  | nil => rfl
  | cons v vs =>
    simp only [Value.eraseAll, Value.printAll, Value.print_erase v, Value.printAll_erase vs]

theorem ObjectField.printAll_erase (fs : List ObjectField) :
    ObjectField.printAll (ObjectField.eraseAll fs) = ObjectField.printAll fs := by
  cases fs with
  | nil => rfl
  | cons f fs =>
    simp only [ObjectField.eraseAll, ObjectField.printAll, ObjectField.print_erase f,
      ObjectField.printAll_erase fs]

end

mutual

theorem TypeReference.print_erase (t : TypeReference) : t.erase.print = t.print := by
  cases t with
  | list t => exact ListType.print_erase t
  | named t => rfl
  | nonNull t => exact NonNullType.print_erase t

theorem ListType.print_erase (t : ListType) : t.erase.print = t.print := by
  cases t with
  | mk item span => simp only [ListType.erase, ListType.print, TypeReference.print_erase item]

theorem NonNullType.print_erase (t : NonNullType) : t.erase.print = t.print := by
  cases t with
  | mk inner span => simp only [NonNullType.erase, NonNullType.print, NullableType.print_erase inner]

theorem NullableType.print_erase (t : NullableType) : t.erase.print = t.print := by
  cases t with
  | list t => exact ListType.print_erase t
  | named t => rfl

end

/-- What is made of every element of a list is what is made of it without its spans. -/
theorem map_erase {α β : Type} {erase : α → α} {f : α → β} (h : ∀ a, f (erase a) = f a) (as : List α) :
    (as.map erase).map f = as.map f := by
  rw [List.map_map]
  exact List.map_congr_left fun a _ => h a

theorem Argument.print_erase (a : Argument) : a.erase.print = a.print := by
  simp only [erase, print, Value.print_erase]
  rfl

theorem Argument.printAll_erase (as : List Argument) :
    Argument.printAll (as.map Argument.erase) = Argument.printAll as := by
  simp only [printAll, List.isEmpty_map, map_erase print_erase]

theorem Directive.print_erase (d : Directive) : d.erase.print = d.print := by
  simp only [erase, print, Argument.printAll_erase]
  rfl

theorem Directive.printAll_erase (ds : List Directive) :
    Directive.printAll (ds.map Directive.erase) = Directive.printAll ds := by
  have hPrint : ∀ d : Directive, ' ' :: d.erase.print = ' ' :: d.print :=
    fun d => congrArg (' ' :: ·) d.print_erase
  rw [printAll, printAll, List.flatMap_def, List.flatMap_def,
    map_erase (f := fun d : Directive => ' ' :: d.print) hPrint]

theorem FragmentSpread.print_erase (s : FragmentSpread) : s.erase.print = s.print := by
  simp only [erase, print, Directive.printAll_erase]
  rfl

theorem Field.printHead_erase (responseAlias : Option Alias) (name : Name) (arguments : List Argument)
    (directives : List Directive) :
    Field.printHead (responseAlias.map Alias.erase) name.erase (arguments.map Argument.erase)
      (directives.map Directive.erase) = Field.printHead responseAlias name arguments directives := by
  simp only [printHead, Argument.printAll_erase, Directive.printAll_erase]
  cases responseAlias <;> rfl

theorem InlineFragment.printHead_erase (typeCondition : Option TypeCondition)
    (directives : List Directive) :
    InlineFragment.printHead (typeCondition.map TypeCondition.erase) (directives.map Directive.erase) =
      InlineFragment.printHead typeCondition directives := by
  simp only [printHead, Directive.printAll_erase]
  cases typeCondition <;> rfl

mutual

theorem SelectionSet.print_erase (s : SelectionSet) : s.erase.print = s.print := by
  cases s with
  | mk selections span =>
    simp only [SelectionSet.erase, SelectionSet.print, Selection.printAll_erase selections]

theorem Selection.print_erase (s : Selection) : s.erase.print = s.print := by
  cases s with
  | field s => exact Field.print_erase s
  | fragmentSpread s => exact FragmentSpread.print_erase s
  | inlineFragment s => exact InlineFragment.print_erase s

theorem Field.print_erase (f : Field) : f.erase.print = f.print := by
  cases f with
  | mk responseAlias name arguments directives selectionSet span =>
    simp only [Field.erase, Field.print, Field.printHead_erase,
      SelectionSet.printOptional_erase selectionSet]

theorem InlineFragment.print_erase (f : InlineFragment) : f.erase.print = f.print := by
  cases f with
  | mk typeCondition directives selectionSet span =>
    simp only [InlineFragment.erase, InlineFragment.print, InlineFragment.printHead_erase,
      SelectionSet.print_erase selectionSet]

theorem SelectionSet.printOptional_erase (s : Option SelectionSet) :
    SelectionSet.printOptional (SelectionSet.eraseOptional s) = SelectionSet.printOptional s := by
  cases s with
  | none => rfl
  | some s => simp only [SelectionSet.eraseOptional, SelectionSet.printOptional, SelectionSet.print_erase s]

theorem Selection.printAll_erase (ss : List Selection) :
    Selection.printAll (Selection.eraseAll ss) = Selection.printAll ss := by
  cases ss with
  | nil => rfl
  | cons s ss =>
    simp only [Selection.eraseAll, Selection.printAll, Selection.print_erase s,
      Selection.printAll_erase ss]

end

theorem VariableDefinition.print_erase (d : VariableDefinition) : d.erase.print = d.print := by
  simp only [erase, print, TypeReference.print_erase]
  cases d.defaultValue with
  | none => rfl
  | some v =>
    simp only [Option.map_some, Value.print_erase]
    rfl

theorem VariableDefinition.printAll_erase (ds : List VariableDefinition) :
    VariableDefinition.printAll (ds.map VariableDefinition.erase) = VariableDefinition.printAll ds := by
  simp only [printAll, map_erase print_erase]

theorem OperationDefinition.print_erase (o : OperationDefinition) : o.erase.print = o.print := by
  have hShorthand : o.erase.isShorthand = o.isShorthand := by
    simp only [isShorthand, erase, Option.isNone_map, List.isEmpty_map]
  simp only [print, hShorthand]
  simp only [erase, VariableDefinition.printAll_erase, List.isEmpty_map, Directive.printAll_erase,
    SelectionSet.print_erase]
  cases o.name <;> rfl

theorem FragmentDefinition.print_erase (f : FragmentDefinition) : f.erase.print = f.print := by
  have hName : f.erase.name.print = f.name.print := rfl
  have hCondition : f.erase.typeCondition.print = f.typeCondition.print := rfl
  have hDirectives : Directive.printAll f.erase.directives = Directive.printAll f.directives :=
    Directive.printAll_erase f.directives
  have hSelections : f.erase.selectionSet.print = f.selectionSet.print := f.selectionSet.print_erase
  unfold print
  rw [hName, hCondition, hDirectives, hSelections]

theorem Definition.print_erase (d : Definition) : d.erase.print = d.print := by
  cases d with
  | fragment d => exact FragmentDefinition.print_erase d
  | operation d => exact OperationDefinition.print_erase d

theorem Document.print_erase (d : Document) : d.erase.print = d.print := by
  simp only [erase, print, map_erase Definition.print_erase]

theorem Construct.print_erase (c : Construct) : c.erase.print = c.print := by
  cases c with
  | document d => exact d.print_erase
  | definition d => exact d.print_erase
  | operationDefinition d => exact d.print_erase
  | variableDefinitions ds => exact VariableDefinition.printAll_erase ds
  | variableDefinition d => exact d.print_erase
  | selectionSet s => exact s.print_erase
  | selection s => exact s.print_erase
  | field f => exact f.print_erase
  | arguments as => exact Argument.printAll_erase as
  | argument a => exact a.print_erase
  | directives ds => simp only [erase, print, map_erase Directive.print_erase]
  | directive d => exact d.print_erase
  | fragmentSpread s => exact s.print_erase
  | inlineFragment f => exact f.print_erase
  | fragmentDefinition d => exact d.print_erase
  | type t => exact t.print_erase
  | listType t => exact t.print_erase
  | nonNullType t => exact t.print_erase
  | value v | constValue v | booleanOrNullOrEnum v => exact v.print_erase
  | listValue v => exact v.print_erase
  | objectValue v => exact v.print_erase
  | operationType | responseAlias | fragmentName | typeCondition | namedType | reference | intValue
    | floatValue | stringValue | name => rfl

/-! ## Nesting -/

mutual

theorem Value.inside_erase (v : Value) : v.erase.inside = v.inside := by
  cases v with
  | list v => exact ListValue.nesting_erase v
  | object v => exact ObjectValue.nesting_erase v
  | boolean | enum | float | int | null | string | reference => rfl

theorem ListValue.nesting_erase (v : ListValue) : v.erase.nesting = v.nesting := by
  cases v with
  | mk values span => simp only [ListValue.erase, ListValue.nesting, Value.deepestOf_erase values]

theorem ObjectValue.nesting_erase (v : ObjectValue) : v.erase.nesting = v.nesting := by
  cases v with
  | mk fields span => simp only [ObjectValue.erase, ObjectValue.nesting, ObjectField.deepestOf_erase fields]

theorem ObjectField.nesting_erase (f : ObjectField) : f.erase.nesting = f.nesting := by
  cases f with
  | mk name value span => simp only [ObjectField.erase, ObjectField.nesting, Value.inside_erase value]

theorem Value.deepestOf_erase (vs : List Value) :
    Value.deepestOf (Value.eraseAll vs) = Value.deepestOf vs := by
  cases vs with
  | nil => rfl
  | cons v vs =>
    simp only [Value.eraseAll, Value.deepestOf, Value.inside_erase v, Value.deepestOf_erase vs]

theorem ObjectField.deepestOf_erase (fs : List ObjectField) :
    ObjectField.deepestOf (ObjectField.eraseAll fs) = ObjectField.deepestOf fs := by
  cases fs with
  | nil => rfl
  | cons f fs =>
    simp only [ObjectField.eraseAll, ObjectField.deepestOf, ObjectField.nesting_erase f,
      ObjectField.deepestOf_erase fs]

end

theorem Value.nesting_erase (v : Value) : v.erase.nesting = v.nesting := by
  rw [nesting, nesting, inside_erase]

mutual

theorem TypeReference.inside_erase (t : TypeReference) : t.erase.inside = t.inside := by
  cases t with
  | list t => exact ListType.nesting_erase t
  | named t => rfl
  | nonNull t => exact NonNullType.inside_erase t

theorem ListType.nesting_erase (t : ListType) : t.erase.nesting = t.nesting := by
  cases t with
  | mk item span => simp only [ListType.erase, ListType.nesting, TypeReference.inside_erase item]

theorem NonNullType.inside_erase (t : NonNullType) : t.erase.inside = t.inside := by
  cases t with
  | mk inner span => simp only [NonNullType.erase, NonNullType.inside, NullableType.nesting_erase inner]

theorem NullableType.nesting_erase (t : NullableType) : t.erase.nesting = t.nesting := by
  cases t with
  | list t => exact ListType.nesting_erase t
  | named t => rfl

end

theorem TypeReference.nesting_erase (t : TypeReference) : t.erase.nesting = t.nesting := by
  rw [nesting, nesting, inside_erase]

theorem NonNullType.nesting_erase (t : NonNullType) : t.erase.nesting = t.nesting := by
  rw [nesting, nesting, inside_erase]

theorem deepest_map {α : Type} {erase : α → α} {nesting : α → Nat} (h : ∀ a, nesting (erase a) = nesting a)
    (as : List α) : deepest nesting (as.map erase) = deepest nesting as := by
  induction as with
  | nil => rfl
  | cons a as ih => rw [List.map_cons, deepest, deepest, h, ih]

theorem Argument.nesting_erase (a : Argument) : a.erase.nesting = a.nesting :=
  a.value.nesting_erase

theorem Directive.nesting_erase (d : Directive) : d.erase.nesting = d.nesting :=
  deepest_map Argument.nesting_erase d.arguments

theorem FragmentSpread.nesting_erase (s : FragmentSpread) : s.erase.nesting = s.nesting :=
  deepest_map Directive.nesting_erase s.directives

mutual

theorem SelectionSet.inside_erase (s : SelectionSet) : s.erase.inside = s.inside := by
  cases s with
  | mk selections span =>
    simp only [SelectionSet.erase, SelectionSet.inside, Selection.deepestOf_erase selections]

theorem Selection.nesting_erase (s : Selection) : s.erase.nesting = s.nesting := by
  cases s with
  | field s => exact Field.nesting_erase s
  | fragmentSpread s => exact FragmentSpread.nesting_erase s
  | inlineFragment s => exact InlineFragment.nesting_erase s

theorem Field.nesting_erase (f : Field) : f.erase.nesting = f.nesting := by
  cases f with
  | mk responseAlias name arguments directives selectionSet span =>
    simp only [Field.erase, Field.nesting, deepest_map Argument.nesting_erase,
      deepest_map Directive.nesting_erase, SelectionSet.optionalNesting_erase selectionSet]

theorem InlineFragment.nesting_erase (f : InlineFragment) : f.erase.nesting = f.nesting := by
  cases f with
  | mk typeCondition directives selectionSet span =>
    simp only [InlineFragment.erase, InlineFragment.nesting, deepest_map Directive.nesting_erase,
      SelectionSet.inside_erase selectionSet]

theorem SelectionSet.optionalNesting_erase (s : Option SelectionSet) :
    SelectionSet.optionalNesting (SelectionSet.eraseOptional s) = SelectionSet.optionalNesting s := by
  cases s with
  | none => rfl
  | some s =>
    simp only [SelectionSet.eraseOptional, SelectionSet.optionalNesting, SelectionSet.inside_erase s]

theorem Selection.deepestOf_erase (ss : List Selection) :
    Selection.deepestOf (Selection.eraseAll ss) = Selection.deepestOf ss := by
  cases ss with
  | nil => rfl
  | cons s ss =>
    simp only [Selection.eraseAll, Selection.deepestOf, Selection.nesting_erase s,
      Selection.deepestOf_erase ss]

end

theorem SelectionSet.nesting_erase (s : SelectionSet) : s.erase.nesting = s.nesting := by
  rw [nesting, nesting, inside_erase]

theorem VariableDefinition.nesting_erase (d : VariableDefinition) : d.erase.nesting = d.nesting := by
  simp only [erase, nesting, TypeReference.nesting_erase]
  cases d.defaultValue with
  | none => rfl
  | some v => simp only [Option.map_some, optionalNesting, Value.nesting_erase]

theorem OperationDefinition.nesting_erase (o : OperationDefinition) : o.erase.nesting = o.nesting := by
  simp only [erase, nesting, deepest_map VariableDefinition.nesting_erase,
    deepest_map Directive.nesting_erase, SelectionSet.nesting_erase]

theorem FragmentDefinition.nesting_erase (f : FragmentDefinition) : f.erase.nesting = f.nesting := by
  simp only [erase, nesting, deepest_map Directive.nesting_erase, SelectionSet.nesting_erase]

theorem Definition.nesting_erase (d : Definition) : d.erase.nesting = d.nesting := by
  cases d with
  | fragment d => exact d.nesting_erase
  | operation d => exact d.nesting_erase

theorem Document.nesting_erase (d : Document) : d.erase.nesting = d.nesting :=
  deepest_map Definition.nesting_erase d.definitions

theorem Construct.nesting_erase (c : Construct) : c.erase.nesting = c.nesting := by
  cases c with
  | document d => exact d.nesting_erase
  | definition d => exact d.nesting_erase
  | operationDefinition d => exact d.nesting_erase
  | variableDefinitions ds => exact deepest_map VariableDefinition.nesting_erase ds
  | variableDefinition d => exact d.nesting_erase
  | selectionSet s => exact s.nesting_erase
  | selection s => exact s.nesting_erase
  | field f => exact f.nesting_erase
  | arguments as => exact deepest_map Argument.nesting_erase as
  | argument a => exact a.nesting_erase
  | directives ds => exact deepest_map Directive.nesting_erase ds
  | directive d => exact d.nesting_erase
  | fragmentSpread s => exact s.nesting_erase
  | inlineFragment f => exact f.nesting_erase
  | fragmentDefinition d => exact d.nesting_erase
  | type t => exact t.nesting_erase
  | listType t => exact t.nesting_erase
  | nonNullType t => exact t.nesting_erase
  | value v | constValue v => exact v.nesting_erase
  | listValue v => exact v.nesting_erase
  | objectValue v => exact v.nesting_erase
  | operationType | responseAlias | fragmentName | typeCondition | namedType | booleanOrNullOrEnum
    | reference | intValue | floatValue | stringValue | name => rfl

end GraphQLSyntax
