import GraphQLSyntax.Parse
import GraphQLSyntax.Proofs.Relocation.Value

/-!
# Selections and definitions elsewhere

Whatever the symbol, what is parsed from tokens elsewhere is what is parsed from them here, moved along. So only the
kinds of the tokens decide what they are parsed as, and why not.
-/

set_option autoImplicit false

namespace GraphQLSyntax

namespace Parser

section

variable (r : Relocation)

/-! ## Arguments and directives -/

theorem relocates_argument : Relocates r (Argument.relocate r) argument := by
  apply (relocates_name r).bind
  intro name
  apply (relocates_expect r .colon).bind
  intro _
  apply (relocates_value r .argument).bind
  intro value
  exact (follows_spanFrom r name.span).map fun _ => rfl

theorem relocates_arguments (e : Enclosure) : Relocates r (List.map (Argument.relocate r)) (arguments e) :=
  (relocates_enclosedSome e (relocates_argument r)).map fun _ => rfl

/-- A list that is there if a punctuator comes next. -/
theorem relocates_optionalList {α : Type} {g : α → α} {p : Parser (List α)} (q : Punctuator)
    (hp : Relocates r (List.map g) p) :
    Relocates r (List.map g) (do if ← peekIs q then p else return []) := by
  apply (relocates_peekIs r q).bind
  intro isNext
  exact .ite hp (.pure [])

theorem relocates_directive : Relocates r (Directive.relocate r) directive := by
  apply (relocates_expect r .atSign).bind
  intro sign
  apply (relocates_name r).bind
  intro name
  apply (relocates_optionalList r .parenOpen (relocates_arguments r .directiveArguments)).bind
  intro arguments
  exact (follows_spanFrom r sign.span).map fun _ => rfl

theorem relocates_directives : Relocates r (List.map (Directive.relocate r)) directives := by
  apply (relocates_directive r).bind
  intro first
  exact (relocates_repeatWhile (relocates_peekIs r .atSign) (relocates_directive r)).map fun _ => rfl

theorem relocates_optionalDirectives : Relocates r (List.map (Directive.relocate r)) optionalDirectives :=
  relocates_optionalList r .atSign (relocates_directives r)

/-! ## Fragments and fields -/

theorem follows_finishAlias (name : Name) :
    Follows r (Alias.relocate r) (finishAlias name) (finishAlias (name.relocate r)) := by
  apply (relocates_expect r .colon).bind
  intro _
  exact (follows_spanFrom r name.span).map fun _ => rfl

theorem relocates_responseAlias : Relocates r (Alias.relocate r) responseAlias := by
  apply (relocates_name r).bind
  exact follows_finishAlias r

theorem relocates_fragmentName : Relocates r (Name.relocate r) fragmentName := by
  apply (relocates_peekIsWord r "on").bind
  intro isOn
  cases isOn with
  | true => exact (relocates_peekSpan r).throwHere fun _ => rfl
  | false => exact relocates_name r

theorem relocates_typeCondition : Relocates r (TypeCondition.relocate r) typeCondition := by
  apply (relocates_expectWord r "on").bind
  intro on
  apply (relocates_namedType r).bind
  intro namedType
  exact (follows_spanFrom r on).map fun _ => rfl

theorem relocates_fragmentSpread : Relocates r (FragmentSpread.relocate r) fragmentSpread := by
  apply (relocates_expect r .ellipsis).bind
  intro dots
  apply (relocates_fragmentName r).bind
  intro name
  apply (relocates_optionalDirectives r).bind
  intro directives
  exact (follows_spanFrom r dots.span).map fun _ => rfl

theorem relocates_fieldName :
    Relocates r (Prod.map (Option.map (Alias.relocate r)) (Name.relocate r)) fieldName := by
  apply (relocates_name r).bind
  intro first
  apply (relocates_peekIs r .colon).bind
  intro isAlias
  apply Follows.ite _ (.pure (none, first))
  apply (follows_finishAlias r first).bind
  intro responseAlias
  exact (relocates_name r).map fun _ => rfl

theorem relocates_fieldHead : Relocates r (Field.relocate r) fieldHead := by
  apply (relocates_fieldName r).bind
  rintro ⟨responseAlias, name⟩
  apply (relocates_optionalList r .parenOpen (relocates_arguments r .fieldArguments)).bind
  intro arguments
  apply (relocates_optionalDirectives r).bind
  intro directives
  cases responseAlias with
  | none => exact (follows_spanFrom r name.span).map fun _ => rfl
  | some a => exact (follows_spanFrom r a.span).map fun _ => rfl

theorem relocates_optionalTypeCondition :
    Relocates r (Option.map (TypeCondition.relocate r)) optionalTypeCondition := by
  apply (relocates_peekIsWord r "on").bind
  intro isOn
  exact .ite ((relocates_typeCondition r).map fun _ => rfl) (.pure none)

theorem relocates_startsInlineFragment : Relocates r id startsInlineFragment := by
  apply (relocates_peekKindNth r 1).bind
  intro kind
  cases kind with
  | none => exact .pure false
  | some kind =>
    cases kind with
    | punctuator p => cases p <;> exact .pure _
    | name word =>
      dsimp only [id_eq]
      split
      · exact (relocates_peekKindNth r 2).map fun _ => rfl
      · exact .pure false
    | _ => exact .pure false

section

variable {r} {set : Parser SelectionSet} (hSet : Relocates r (SelectionSet.relocate r) set)

include hSet

theorem relocates_fieldOf : Relocates r (Field.relocate r) (fieldOf set) := by
  apply (relocates_fieldHead r).bind
  rintro ⟨responseAlias, name, arguments, directives, none', span⟩
  apply (relocates_peekIs r .braceOpen).bind
  intro hasSet
  apply Follows.ite _ (.pure _)
  apply hSet.bind
  intro selectionSet
  exact (follows_spanFrom r span).map fun _ => rfl

theorem relocates_inlineFragmentOf : Relocates r (InlineFragment.relocate r) (inlineFragmentOf set) := by
  apply (relocates_expect r .ellipsis).bind
  intro dots
  apply (relocates_optionalTypeCondition r).bind
  intro typeCondition
  apply (relocates_optionalDirectives r).bind
  intro directives
  apply hSet.bind
  intro selectionSet
  exact (follows_spanFrom r dots.span).map fun _ => rfl

theorem relocates_selectionOf : Relocates r (Selection.relocate r) (selectionOf set) := by
  apply (relocates_peekIs r .ellipsis).bind
  intro isFragment
  cases isFragment with
  | false => exact (relocates_fieldOf hSet).map fun _ => rfl
  | true =>
    apply (relocates_startsInlineFragment r).bind
    intro isInline
    exact .ite ((relocates_inlineFragmentOf hSet).map fun _ => rfl)
      ((relocates_fragmentSpread r).map fun _ => rfl)

end

theorem relocates_selectionSetOf {selection : Parser Selection}
    (hSelection : Relocates r (Selection.relocate r) selection) :
    Relocates r (SelectionSet.relocate r) (selectionSetOf selection) := by
  apply (relocates_enclosedSome .selectionSet hSelection).map
  rintro ⟨selections, span⟩
  rw [SelectionSet.relocate, Selection.relocateAll_eq]
  rfl

theorem relocates_selectionSetWithin (room : Nat) :
    Relocates r (SelectionSet.relocate r) (selectionSetWithin room) := by
  induction room with
  | zero => exact relocates_tooDeep
  | succ room ih => exact relocates_nested (relocates_selectionSetOf r (relocates_selectionOf ih))

theorem relocates_selectionSet : Relocates r (SelectionSet.relocate r) selectionSet :=
  relocates_selectionSetWithin r maxDepth

/-! ## Definitions -/

theorem relocates_optionalDefault : Relocates r (Option.map (Value.relocate r)) optionalDefault := by
  apply (relocates_peekIs r .equals).bind
  intro hasDefault
  apply Follows.ite _ (.pure none)
  apply (relocates_next r).bind
  intro _
  exact (relocates_value r .variableDefault).map fun _ => rfl

theorem relocates_variableDefinition :
    Relocates r (VariableDefinition.relocate r) variableDefinition := by
  apply (relocates_reference r).bind
  intro declared
  apply (relocates_expect r .colon).bind
  intro _
  apply (relocates_typeReference r).bind
  intro type
  apply (relocates_optionalDefault r).bind
  intro defaultValue
  exact (follows_spanFrom r declared.span).map fun _ => rfl

theorem relocates_variableDefinitions :
    Relocates r (List.map (VariableDefinition.relocate r)) variableDefinitions :=
  (relocates_enclosedSome .variableDefinitions (relocates_variableDefinition r)).map fun _ => rfl

theorem relocates_optionalName : Relocates r (Option.map (Name.relocate r)) optionalName := by
  apply (relocates_peekKind r).bind
  intro kind
  exact .ite ((relocates_name r).map fun _ => rfl) (.pure none)

/-- A kind of operation and the span of its keyword. -/
def relocateKeyword (keyword : OperationKind × Span) : OperationKind × Span :=
  (keyword.1, keyword.2.relocate r)

theorem relocates_operationType : Relocates r (relocateKeyword r) operationType := by
  apply (relocates_peekKind r).bind
  intro kind
  cases kind with
  | none => exact relocates_unexpected r _ _
  | some kind =>
    cases kind with
    | name word =>
      dsimp only [id_eq]
      cases OperationKind.ofKeyword? word with
      | some kind => exact (relocates_next r).map fun _ => rfl
      | none => exact relocates_unexpected r _ _
    | _ => exact relocates_unexpected r _ _

theorem relocates_operationDefinition :
    Relocates r (OperationDefinition.relocate r) operationDefinition := by
  apply (relocates_peekIs r .braceOpen).bind
  intro isShorthand
  cases isShorthand with
  | true =>
    apply (relocates_selectionSet r).map
    rintro ⟨selections, span⟩
    rfl
  | false =>
    apply (relocates_operationType r).bind
    rintro ⟨kind, start⟩
    apply (relocates_optionalName r).bind
    intro name
    apply (relocates_optionalList r .parenOpen (relocates_variableDefinitions r)).bind
    intro variableDefinitions
    apply (relocates_optionalDirectives r).bind
    intro directives
    apply (relocates_selectionSet r).bind
    intro selectionSet
    exact (follows_spanFrom r start).map fun _ => rfl

theorem relocates_fragmentDefinition :
    Relocates r (FragmentDefinition.relocate r) fragmentDefinition := by
  apply (relocates_expectWord r "fragment").bind
  intro start
  apply (relocates_fragmentName r).bind
  intro name
  apply (relocates_typeCondition r).bind
  intro typeCondition
  apply (relocates_optionalDirectives r).bind
  intro directives
  apply (relocates_selectionSet r).bind
  intro selectionSet
  exact (follows_spanFrom r start).map fun _ => rfl

theorem relocates_peekTypeSystem : Relocates r id peekTypeSystem := by
  apply (relocates_peekKind r).bind
  intro kind
  apply (relocates_peekKindNth r _).bind
  intro kind
  cases kind with
  | none => exact .pure none
  | some kind => cases kind <;> exact .pure _

theorem relocates_startsOperation : Relocates r id startsOperation := by
  apply (relocates_peekKind r).bind
  intro kind
  cases kind with
  | none => exact .pure false
  | some kind =>
    cases kind with
    | punctuator p => cases p <;> exact .pure _
    | _ => exact .pure _

theorem relocates_definition : Relocates r (Definition.relocate r) definition := by
  apply (relocates_startsOperation r).bind
  intro isOperation
  cases isOperation with
  | true => exact (relocates_operationDefinition r).map fun _ => rfl
  | false =>
    apply (relocates_peekIsWord r "fragment").bind
    intro isFragment
    cases isFragment with
    | true => exact (relocates_fragmentDefinition r).map fun _ => rfl
    | false =>
      apply (relocates_peekTypeSystem r).bind
      intro found
      cases found with
      | some found => exact (relocates_peekSpan r).throwHere fun _ => rfl
      | none => exact relocates_unexpected r _ _

theorem relocates_document : Relocates r (Document.relocate r) document := by
  have hMore : Relocates r id (do return !(← isAtEnd)) := (relocates_isAtEnd r).map fun _ => rfl
  apply (relocates_definition r).bind
  intro first
  apply (relocates_repeatWhile hMore (relocates_definition r)).map
  intro others
  have hLast : ((others.map (Definition.relocate r)).getLast?.getD (first.relocate r)) =
      (others.getLast?.getD first).relocate r := by
    rw [List.getLast?_map]
    cases others.getLast? <;> rfl
  rw [hLast, Definition.span_relocate, Definition.span_relocate]
  rfl

/-! ## Symbols -/

theorem relocates_construct (symbol : GrammarSymbol) :
    Relocates r (Construct.relocate r) (construct symbol) := by
  cases symbol with
  | document => exact (relocates_document r).map fun _ => rfl
  | definition => exact (relocates_definition r).map fun _ => rfl
  | operationDefinition => exact (relocates_operationDefinition r).map fun _ => rfl
  | operationType => exact (relocates_operationType r).map fun _ => rfl
  | variableDefinitions => exact (relocates_variableDefinitions r).map fun _ => rfl
  | variableDefinition => exact (relocates_variableDefinition r).map fun _ => rfl
  | selectionSet => exact (relocates_selectionSet r).map fun _ => rfl
  | selection => exact (relocates_selectionOf (relocates_selectionSet r)).map fun _ => rfl
  | field => exact (relocates_fieldOf (relocates_selectionSet r)).map fun _ => rfl
  | responseAlias => exact (relocates_responseAlias r).map fun _ => rfl
  | arguments => exact (relocates_arguments r .fieldArguments).map fun _ => rfl
  | argument => exact (relocates_argument r).map fun _ => rfl
  | directives => exact (relocates_directives r).map fun _ => rfl
  | directive => exact (relocates_directive r).map fun _ => rfl
  | fragmentSpread => exact (relocates_fragmentSpread r).map fun _ => rfl
  | fragmentName => exact (relocates_fragmentName r).map fun _ => rfl
  | inlineFragment => exact (relocates_inlineFragmentOf (relocates_selectionSet r)).map fun _ => rfl
  | fragmentDefinition => exact (relocates_fragmentDefinition r).map fun _ => rfl
  | typeCondition => exact (relocates_typeCondition r).map fun _ => rfl
  | type => exact (relocates_typeReference r).map fun _ => rfl
  | namedType => exact (relocates_namedType r).map fun _ => rfl
  | listType => exact (relocates_listTypeOf (relocates_typeReference r)).map fun _ => rfl
  | nonNullType => exact (relocates_nonNullType r).map fun _ => rfl
  | value => exact (relocates_value r .argument).map fun _ => rfl
  | constValue => exact (relocates_value r .constant).map fun _ => rfl
  | booleanOrNullOrEnum => exact (relocates_booleanNullOrEnum r).map fun _ => rfl
  | reference => exact (relocates_reference r).map fun _ => rfl
  | listValue => exact (relocates_listValueOf (relocates_value r .argument)).map fun _ => rfl
  | objectValue => exact (relocates_objectValueOf (relocates_value r .argument)).map fun _ => rfl
  | intValue => exact (relocates_intValue r).map fun _ => rfl
  | floatValue => exact (relocates_floatValue r).map fun _ => rfl
  | stringValue => exact (relocates_stringValue r).map fun _ => rfl
  | name => exact (relocates_name r).map fun _ => rfl

theorem relocates_whole {α : Type} {g : α → α} {p : Parser α} (hp : Relocates r g p) :
    Relocates r g (whole p) := by
  apply hp.bind
  intro a
  exact (relocates_expectEnd r).map fun _ => rfl

end

end Parser

/-! ## Whole parses -/

def relocateParsed (r : Relocation) : Except ParseError Construct → Except ParseError Construct
  | .ok c => .ok (c.relocate r)
  | .error e => .error (e.relocate r)

/-- Tokens elsewhere are parsed as they are here. -/
theorem parseTokens_relocate (r : Relocation) (tokens : List Token) (symbol : GrammarSymbol) :
    parseTokens (tokens.map (Token.relocate r)) symbol = relocateParsed r (parseTokens tokens symbol) := by
  have hRun := Parser.relocates_whole r (Parser.relocates_construct r symbol) (.ofTokens tokens)
  change Parser.whole (Parser.construct symbol) (.ofTokens (tokens.map (Token.relocate r))) = _ at hRun
  rw [parseTokens, Parser.result, EStateM.run, hRun, parseTokens, Parser.result, EStateM.run]
  cases Parser.whole (Parser.construct symbol) (.ofTokens tokens) <;> rfl

end GraphQLSyntax
