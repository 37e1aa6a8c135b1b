import GraphQLSyntax.Proofs.Faults.Cause
import GraphQLSyntax.Proofs.Faults.Document

/-!
# The causes of the errors of every production

Whatever the symbol and the tokens, an error of a parse has one of the causes.
-/

set_option autoImplicit false

namespace GraphQLSyntax

namespace Parser

/-! ## Values -/

theorem accounts_reference : Accounts reference := by
  apply (accounts_expect .dollar).bind
  intro dollar
  apply accounts_name.bind
  intro name
  exact (accounts_spanFrom dollar.span).map _

theorem accounts_booleanNullOrEnum : Accounts booleanNullOrEnum := by
  apply Accounts.literal
  rintro ⟨kind, span⟩
  cases kind with
  | boolean | null | name => exact .inl ⟨trivial, _, rfl⟩
  | _ => exact .inr ⟨_, rfl, fun s us => cause_unexpected _ us .booleanNullOrEnum⟩

theorem accounts_intValue : Accounts intValue := by
  apply Accounts.literal
  rintro ⟨kind, span⟩
  cases kind with
  | int raw =>
    dsimp only
    cases hRead : readInt64 raw.toList with
    | ok value => exact .inl ⟨⟨value, hRead⟩, _, rfl⟩
    | error fault => exact .inr ⟨_, rfl, fun s us => .next rfl nofun rfl rfl (placeless_of_nil rfl)⟩
  | _ => exact .inr ⟨_, rfl, fun s us => cause_unexpected _ us .integer⟩

theorem accounts_floatValue : Accounts floatValue := by
  apply Accounts.literal
  rintro ⟨kind, span⟩
  cases kind with
  | float raw =>
    dsimp only
    cases hRead : (Binary64.ofText? raw.toList).filter Binary64.isFinite with
    | some value => exact .inl ⟨⟨value, Option.filter_eq_some_iff.mp hRead⟩, _, rfl⟩
    | none => exact .inr ⟨_, rfl, fun s us => .next rfl nofun rfl rfl (placeless_of_nil rfl)⟩
  | _ => exact .inr ⟨_, rfl, fun s us => cause_unexpected _ us .float⟩

theorem accounts_stringValue : Accounts stringValue := by
  apply Accounts.literal
  rintro ⟨kind, span⟩
  cases kind with
  | string raw =>
    dsimp only
    cases hRead : decodeStringLiteral raw with
    | ok value => exact .inl ⟨⟨value, hRead⟩, _, rfl⟩
    | error fault => exact .inr ⟨_, rfl, fun s us => .next rfl nofun rfl rfl (placeless_of_nil rfl)⟩
  | _ => exact .inr ⟨_, rfl, fun s us => cause_unexpected _ us .string⟩

section

variable {item : Parser Value} (hItem : Accounts item)

include hItem

theorem accounts_listValueOf : Accounts (listValueOf item) := (accounts_enclosed .listValue hItem).map _

theorem accounts_objectFieldOf : Accounts (objectFieldOf item) := by
  apply accounts_name.bind
  intro name
  apply (accounts_expect .colon).bind
  intro _
  apply hItem.bind
  intro value
  exact (accounts_spanFrom name.span).map _

theorem accounts_objectValueOf : Accounts (objectValueOf item) :=
  (accounts_enclosed .objectValue (accounts_objectFieldOf hItem)).map _

theorem accounts_valueOf (context : ValueContext) : Accounts (valueOf context item) := by
  apply Accounts.look peekKind_peeks
  intro s
  cases hRest : s.rest with
  | nil => exact accounts_unexpected _ s
  | cons t us =>
    obtain ⟨kind, span⟩ := t
    cases kind with
    | int => exact accounts_intValue.map _ s
    | float => exact accounts_floatValue.map _ s
    | string => exact accounts_stringValue.map _ s
    | boolean | null | name => exact accounts_booleanNullOrEnum s
    | endOfInput | error => exact accounts_unexpected _ s
    | punctuator p =>
      cases p with
      | bracketOpen => exact (accounts_listValueOf hItem).map _ s
      | braceOpen => exact (accounts_objectValueOf hItem).map _ s
      | dollar =>
        cases context with
        | argument => exact accounts_reference.map _ s
        | constant | variableDefault =>
          have hNext : nextKind s.rest = some (.punctuator .dollar) := by rw [hRest]; rfl
          exact accounted_refuse hNext rfl nofun (fun _ => rfl) (fun _ => rfl) fun _ => placeless_of_nil rfl
      | _ => exact accounts_unexpected _ s

end

theorem accounts_valueWithin (context : ValueContext) (room : Nat) : Accounts (valueWithin context room) := by
  induction room with
  | zero => exact accounts_tooDeep
  | succ room ih => exact (accounts_valueOf ih context).nested

theorem accounts_value (context : ValueContext) : Accounts (value context) :=
  accounts_valueWithin context maxDepth

/-! ## Type references -/

theorem accounts_namedType : Accounts namedType := by
  apply Accounts.look peekKind_peeks
  intro s
  split
  · rename_i hNull
    exact accounted_refuse (beq_iff_eq.mp hNull) rfl nofun (fun _ => rfl) (fun _ => rfl) fun _ => placeless_spec
  · exact accounts_name.map _ s

section

variable {item : Parser TypeReference} (hItem : Accounts item)

include hItem

theorem accounts_listTypeOf : Accounts (listTypeOf item) := by
  apply (accounts_openEnclosure .listType).bind
  intro opening
  apply accounts_refuseEnd.bind
  intro _
  apply hItem.bind
  intro item
  apply (accounts_closeEnclosure .listType).bind
  intro _
  exact (accounts_spanFrom opening).map _

theorem accounts_nullableTypeOf : Accounts (nullableTypeOf item) := by
  apply (accounts_peekIs .bracketOpen).bind
  intro isList
  exact .ite ((accounts_listTypeOf hItem).map _) (accounts_namedType.map _)

end

theorem accounts_finishNonNull (inner : NullableType) : Accounts (finishNonNull inner) := by
  apply (accounts_expect .bang).bind
  intro _
  exact (accounts_spanFrom inner.span).map _

theorem accounts_typeReferenceOf {item : Parser TypeReference} (hItem : Accounts item) :
    Accounts (typeReferenceOf item) := by
  apply (accounts_nullableTypeOf hItem).bind
  intro t
  apply (accounts_peekIs .bang).bind
  intro isNonNull
  exact .ite ((accounts_finishNonNull t).map _) (.pure _)

theorem accounts_typeReferenceWithin (room : Nat) : Accounts (typeReferenceWithin room) := by
  induction room with
  | zero => exact accounts_tooDeep
  | succ room ih => exact (accounts_typeReferenceOf ih).nested

theorem accounts_typeReference : Accounts typeReference := accounts_typeReferenceWithin maxDepth

theorem accounts_nonNullType : Accounts nonNullType := by
  apply Accounts.nested
  apply (accounts_nullableTypeOf accounts_typeReference).bind
  exact accounts_finishNonNull

/-! ## Arguments and directives -/

theorem accounts_argument : Accounts argument := by
  apply accounts_name.bind
  intro name
  apply (accounts_expect .colon).bind
  intro _
  apply (accounts_value .argument).bind
  intro value
  exact (accounts_spanFrom name.span).map _

theorem accounts_arguments (e : Enclosure) : Accounts (arguments e) := (accounts_enclosedSome e accounts_argument).map _

/-- A list that is there if a punctuator comes next. -/
theorem accounts_optionalList {α : Type} {p : Parser (List α)} (q : Punctuator) (hp : Accounts p) :
    Accounts (do if ← peekIs q then p else return []) := by
  apply (accounts_peekIs q).bind
  intro isNext
  exact .ite hp (.pure [])

theorem accounts_directive : Accounts directive := by
  apply (accounts_expect .atSign).bind
  intro sign
  apply accounts_name.bind
  intro name
  apply (accounts_optionalList .parenOpen (accounts_arguments .directiveArguments)).bind
  intro arguments
  exact (accounts_spanFrom sign.span).map _

theorem accounts_directives : Accounts directives := by
  apply accounts_directive.bind
  intro first
  exact (accounts_repeatWhile (accounts_peekIs .atSign) accounts_directive).map _

theorem accounts_optionalDirectives : Accounts optionalDirectives :=
  accounts_optionalList .atSign accounts_directives

/-! ## Fragments and fields -/

theorem accounts_finishAlias (name : Name) : Accounts (finishAlias name) := by
  apply (accounts_expect .colon).bind
  intro _
  exact (accounts_spanFrom name.span).map _

theorem accounts_responseAlias : Accounts responseAlias := accounts_name.bind accounts_finishAlias

theorem accounts_fragmentName : Accounts fragmentName := by
  apply Accounts.look (a := fun ts => nextKind ts == some (.name "on")) (peekIsWord_peeks "on")
  intro s
  split
  · rename_i hOn
    exact accounted_refuse (beq_iff_eq.mp hOn) rfl nofun (fun _ => rfl) (fun _ => rfl) fun _ => placeless_spec
  · exact accounts_name s

theorem accounts_typeCondition : Accounts typeCondition := by
  apply (accounts_expectWord "on").bind
  intro on
  apply accounts_namedType.bind
  intro namedType
  exact (accounts_spanFrom on).map _

theorem accounts_fragmentSpread : Accounts fragmentSpread := by
  apply (accounts_expect .ellipsis).bind
  intro dots
  apply accounts_fragmentName.bind
  intro name
  apply accounts_optionalDirectives.bind
  intro directives
  exact (accounts_spanFrom dots.span).map _

theorem accounts_fieldName : Accounts fieldName := by
  apply accounts_name.bind
  intro first
  apply (accounts_peekIs .colon).bind
  intro isAlias
  apply Accounts.ite _ (.pure _)
  apply (accounts_finishAlias first).bind
  intro responseAlias
  exact accounts_name.map _

theorem accounts_fieldHead : Accounts fieldHead := by
  apply accounts_fieldName.bind
  rintro ⟨responseAlias, name⟩
  apply (accounts_optionalList .parenOpen (accounts_arguments .fieldArguments)).bind
  intro arguments
  apply accounts_optionalDirectives.bind
  intro directives
  exact (accounts_spanFrom _).map _

theorem accounts_optionalTypeCondition : Accounts optionalTypeCondition := by
  apply (accounts_peekIsWord "on").bind
  intro isOn
  exact .ite (accounts_typeCondition.map _) (.pure none)

section

variable {set : Parser SelectionSet} (hSet : Accounts set)

include hSet

theorem accounts_fieldOf : Accounts (fieldOf set) := by
  apply accounts_fieldHead.bind
  intro head
  apply (accounts_peekIs .braceOpen).bind
  intro hasSet
  apply Accounts.ite _ (.pure head)
  apply hSet.bind
  intro selectionSet
  exact (accounts_spanFrom head.span).map _

theorem accounts_inlineFragmentOf : Accounts (inlineFragmentOf set) := by
  apply (accounts_expect .ellipsis).bind
  intro dots
  apply accounts_optionalTypeCondition.bind
  intro typeCondition
  apply accounts_optionalDirectives.bind
  intro directives
  apply hSet.bind
  intro selectionSet
  exact (accounts_spanFrom dots.span).map _

theorem accounts_selectionOf : Accounts (selectionOf set) := by
  apply (accounts_peekIs .ellipsis).bind
  intro isFragment
  apply Accounts.ite _ ((accounts_fieldOf hSet).map _)
  apply (accounts_of_peeks startsInlineFragment_peeks).bind
  intro isInline
  exact .ite ((accounts_inlineFragmentOf hSet).map _) (accounts_fragmentSpread.map _)

end

theorem accounts_selectionSetOf {selection : Parser Selection} (hSelection : Accounts selection) :
    Accounts (selectionSetOf selection) := (accounts_enclosedSome .selectionSet hSelection).map _

theorem accounts_selectionSetWithin (room : Nat) : Accounts (selectionSetWithin room) := by
  induction room with
  | zero => exact accounts_tooDeep
  | succ room ih => exact (accounts_selectionSetOf (accounts_selectionOf ih)).nested

theorem accounts_selectionSet : Accounts selectionSet := accounts_selectionSetWithin maxDepth

/-! ## Definitions -/

theorem accounts_optionalDefault : Accounts optionalDefault := by
  apply Accounts.look (a := nextIs .equals) (peekIs_peeks .equals)
  intro s
  split
  · rename_i hIs
    have hNext : Accounted s (next s) := accounted_next_of_kind (beq_iff_eq.mp hIs) trivial
    exact hNext.bind fun _ s₁ _ => (accounts_value .variableDefault).map _ s₁
  · exact Accounts.pure none s

theorem accounts_variableDefinition : Accounts variableDefinition := by
  apply accounts_reference.bind
  intro declared
  apply (accounts_expect .colon).bind
  intro _
  apply accounts_typeReference.bind
  intro type
  apply accounts_optionalDefault.bind
  intro defaultValue
  exact (accounts_spanFrom declared.span).map _

theorem accounts_variableDefinitions : Accounts variableDefinitions :=
  (accounts_enclosedSome .variableDefinitions accounts_variableDefinition).map _

theorem accounts_optionalName : Accounts optionalName := by
  apply (accounts_of_peeks peekKind_peeks).bind
  intro kind
  exact .ite (accounts_name.map _) (.pure none)

theorem accounts_operationType : Accounts operationType := by
  apply Accounts.look peekKind_peeks
  intro s
  cases hNext : nextKind s.rest with
  | none => exact accounts_unexpected _ s
  | some kind =>
    cases kind with
    | name word =>
      dsimp only
      cases OperationKind.ofKeyword? word with
      | none => exact accounts_unexpected _ s
      | some kind =>
        have hRun : Accounted s (next s) := accounted_next_of_kind hNext trivial
        exact hRun.bind fun t s₁ _ => Accounts.pure _ s₁
    | _ => exact accounts_unexpected _ s

theorem accounts_operationDefinition : Accounts operationDefinition := by
  apply (accounts_peekIs .braceOpen).bind
  intro isShorthand
  apply Accounts.ite (accounts_selectionSet.map _)
  apply accounts_operationType.bind
  rintro ⟨kind, start⟩
  apply accounts_optionalName.bind
  intro name
  apply (accounts_optionalList .parenOpen accounts_variableDefinitions).bind
  intro variableDefinitions
  apply accounts_optionalDirectives.bind
  intro directives
  apply accounts_selectionSet.bind
  intro selectionSet
  exact (accounts_spanFrom start).map _

theorem accounts_fragmentDefinition : Accounts fragmentDefinition := by
  apply (accounts_expectWord "fragment").bind
  intro start
  apply accounts_fragmentName.bind
  intro name
  apply accounts_typeCondition.bind
  intro typeCondition
  apply accounts_optionalDirectives.bind
  intro directives
  apply accounts_selectionSet.bind
  intro selectionSet
  exact (accounts_spanFrom start).map _

/-- A definition of the type system starts with a keyword or a description, though the keyword may be the second
token. -/
theorem nextKind_of_typeSystemAhead {ts : List Token} {found : DefinitionKind}
    (h : typeSystemAhead ts = some found) :
    ∃ k, nextKind ts = some k ∧ k.isError = false ∧ k ≠ .endOfInput := by
  cases ts with
  | nil => cases h
  | cons t us =>
    obtain ⟨kind, span⟩ := t
    cases kind with
    | name | string => exact ⟨_, rfl, rfl, nofun⟩
    | _ => cases h

theorem accounts_definition : Accounts definition := by
  apply (accounts_of_peeks startsOperation_peeks).bind
  intro isOperation
  apply Accounts.ite (accounts_operationDefinition.map _)
  apply (accounts_peekIsWord "fragment").bind
  intro isFragment
  apply Accounts.ite (accounts_fragmentDefinition.map _)
  apply Accounts.look fun s => (looks_peekTypeSystem s).imp fun _ h => ⟨h.1, h.2.1⟩
  intro s
  cases hFound : typeSystemAhead s.rest with
  | none => exact accounts_unexpected _ s
  | some found =>
    obtain ⟨k, hNext, hError, hEnd⟩ := nextKind_of_typeSystemAhead hFound
    exact accounted_refuse hNext hError hEnd (fun _ => rfl) (fun _ => rfl) fun _ => placeless_of_nil rfl

theorem accounts_document : Accounts document := by
  apply accounts_definition.bind
  intro first
  have hMore : Accounts (do return !(← isAtEnd)) := (accounts_of_peeks isAtEnd_peeks).map _
  exact (accounts_repeatWhile hMore accounts_definition).map _

/-! ## Symbols -/

theorem accounts_construct (symbol : GrammarSymbol) : Accounts (construct symbol) := by
  cases symbol with
  | document => exact accounts_document.map _
  | definition => exact accounts_definition.map _
  | operationDefinition => exact accounts_operationDefinition.map _
  | operationType => exact accounts_operationType.map _
  | variableDefinitions => exact accounts_variableDefinitions.map _
  | variableDefinition => exact accounts_variableDefinition.map _
  | selectionSet => exact accounts_selectionSet.map _
  | selection => exact (accounts_selectionOf accounts_selectionSet).map _
  | field => exact (accounts_fieldOf accounts_selectionSet).map _
  | responseAlias => exact accounts_responseAlias.map _
  | arguments => exact (accounts_arguments .fieldArguments).map _
  | argument => exact accounts_argument.map _
  | directives => exact accounts_directives.map _
  | directive => exact accounts_directive.map _
  | fragmentSpread => exact accounts_fragmentSpread.map _
  | fragmentName => exact accounts_fragmentName.map _
  | inlineFragment => exact (accounts_inlineFragmentOf accounts_selectionSet).map _
  | fragmentDefinition => exact accounts_fragmentDefinition.map _
  | typeCondition => exact accounts_typeCondition.map _
  | type => exact accounts_typeReference.map _
  | namedType => exact accounts_namedType.map _
  | listType => exact (accounts_listTypeOf accounts_typeReference).map _
  | nonNullType => exact accounts_nonNullType.map _
  | value => exact (accounts_value .argument).map _
  | constValue => exact (accounts_value .constant).map _
  | booleanOrNullOrEnum => exact accounts_booleanNullOrEnum.map _
  | reference => exact accounts_reference.map _
  | listValue => exact (accounts_listValueOf (accounts_value .argument)).map _
  | objectValue => exact (accounts_objectValueOf (accounts_value .argument)).map _
  | intValue => exact accounts_intValue.map _
  | floatValue => exact accounts_floatValue.map _
  | stringValue => exact accounts_stringValue.map _
  | name => exact accounts_name.map _

theorem Accounts.whole {α : Type} {p : Parser α} (hp : Accounts p) : Accounts (whole p) := by
  apply hp.bind
  intro a
  exact accounts_expectEnd.map _

end Parser

/-! ## Whole parses -/

/-- Every error of a parse arises after some of the tokens, which are no faults, and has a cause there. -/
theorem caused_of_parseTokens {tokens : List Token} {symbol : GrammarSymbol} {e : ParseError}
    (h : parseTokens tokens symbol = .error e) : Parser.Caused (.ofTokens tokens) e := by
  have hRun := (Parser.accounts_construct symbol).whole (.ofTokens tokens)
  rw [parseTokens, Parser.result, EStateM.run] at h
  cases hResult : Parser.whole (Parser.construct symbol) (.ofTokens tokens) with
  | ok c s =>
    rw [hResult] at h
    cases h
  | error e' s =>
    rw [hResult] at h hRun
    cases h
    exact hRun

end GraphQLSyntax
