import GraphQLSyntax.Parse
import GraphQLSyntax.Proofs.Ending.Value
import GraphQLSyntax.Proofs.Faults.Document
import GraphQLSyntax.Proofs.Parsing.Document

/-!
# Documents before the end of the input

Where a parser looks two or three tokens ahead, the tokens in between are none that end the input. So every symbol is
parsed alike before either of two endings: nothing after the token that marks the end is read, and the token itself may
be left out.
-/

set_option autoImplicit false

namespace GraphQLSyntax

namespace Parser

variable {E : Endings}

/-! ## Arguments and directives -/

theorem agrees_argument : Agrees E argument := by
  apply agrees_name.bind
  intro name
  apply (agrees_expect .colon).bind
  intro _
  apply (agrees_value .argument).bind
  intro value
  exact (agrees_spanFrom name.span).map _

theorem agrees_arguments (e : Enclosure) : Agrees E (arguments e) :=
  (agrees_enclosedSome e agrees_argument (implements_argument.consumes argument_startsWith)).map _

/-- A list that is there if a punctuator comes next. -/
theorem agrees_optionalList {α : Type} {p : Parser (List α)} (q : Punctuator) (hp : Agrees E p) :
    Agrees E (do if ← peekIs q then p else return []) := by
  apply (agrees_peekIs q).bind
  intro isNext
  exact .ite hp (.pure [])

theorem agrees_directive : Agrees E directive := by
  apply (agrees_expect .atSign).bind
  intro sign
  apply agrees_name.bind
  intro name
  apply (agrees_optionalList .parenOpen (agrees_arguments .directiveArguments)).bind
  intro arguments
  exact (agrees_spanFrom sign.span).map _

theorem agrees_directives : Agrees E directives := by
  apply agrees_directive.bind
  intro first
  exact (agrees_repeatWhile (looks_peekIs .atSign) (ofFront_nextIs .atSign) rfl agrees_directive
    (implements_directive.consumes directive_startsWith)).map _

theorem agrees_optionalDirectives : Agrees E optionalDirectives := agrees_optionalList .atSign agrees_directives

/-! ## Fragments and fields -/

theorem agrees_finishAlias (name : Name) : Agrees E (finishAlias name) := by
  apply (agrees_expect .colon).bind
  intro _
  exact (agrees_spanFrom name.span).map _

theorem agrees_responseAlias : Agrees E responseAlias := agrees_name.bind agrees_finishAlias

theorem agrees_fragmentName : Agrees E fragmentName := by
  apply (agrees_peekIsWord "on").bind
  intro isOn
  cases isOn with
  | true => exact agrees_throwHere fun _ _ => rfl
  | false => exact agrees_name

theorem agrees_typeCondition : Agrees E typeCondition := by
  apply (agrees_expectWord "on").bind
  intro on
  apply agrees_namedType.bind
  intro namedType
  exact (agrees_spanFrom on).map _

theorem agrees_fragmentSpread : Agrees E fragmentSpread := by
  apply (agrees_expect .ellipsis).bind
  intro dots
  apply agrees_fragmentName.bind
  intro name
  apply agrees_optionalDirectives.bind
  intro directives
  exact (agrees_spanFrom dots.span).map _

theorem agrees_fieldName : Agrees E fieldName := by
  apply agrees_name.bind
  intro first
  apply (agrees_peekIs .colon).bind
  intro isAlias
  apply Agrees.ite _ (.pure (none, first))
  apply (agrees_finishAlias first).bind
  intro responseAlias
  exact agrees_name.map _

theorem agrees_fieldHead : Agrees E fieldHead := by
  apply agrees_fieldName.bind
  rintro ⟨responseAlias, name⟩
  apply (agrees_optionalList .parenOpen (agrees_arguments .fieldArguments)).bind
  intro arguments
  apply agrees_optionalDirectives.bind
  intro directives
  exact (agrees_spanFrom _).map _

theorem agrees_optionalTypeCondition : Agrees E optionalTypeCondition := by
  apply (agrees_peekIsWord "on").bind
  intro isOn
  exact .ite (agrees_typeCondition.map _) (.pure none)

/-! ## Selections -/

theorem inlineAhead_of_end {dots : Token} {us : List Token} (h : front us = none) :
    inlineAhead (dots :: us) = false := by
  cases us with
  | nil => rfl
  | cons t us => simp [inlineAhead, kind_of_front_cons h]

/-- No name stands where the input ends. -/
theorem nameText_of_end {us : List Token} (h : front us = none) :
    (us[0]?.map Token.kind).bind TokenKind.nameText? = none := by
  cases us with
  | nil => rfl
  | cons t us => simp [TokenKind.nameText?, kind_of_front_cons h]

theorem typeSystemAhead_of_end {raw : String} {span : Span} {us : List Token} (h : front us = none) :
    typeSystemAhead (⟨.string raw, span⟩ :: us) = none := by
  cases us with
  | nil => rfl
  | cons t us => simp [typeSystemAhead, kind_of_front_cons h]

/-- The two tokens after the dots are looked at, but the second one only after the word for a type condition. -/
theorem inlineAhead_endings (dots : Token) (ts : List Token) :
    inlineAhead (dots :: ts ++ E.left) = inlineAhead (dots :: ts ++ E.right) := by
  rcases ts with _ | ⟨t, _ | ⟨u, ts⟩⟩
  · exact (inlineAhead_of_end E.left_end).trans (inlineAhead_of_end E.right_end).symm
  · simp only [inlineAhead, List.cons_append, List.nil_append, List.getElem?_cons_succ, List.getElem?_cons_zero,
      nameText_of_end E.left_end, nameText_of_end E.right_end]
  · rfl

/-- The second token is looked at, but only if the first one is a description. -/
theorem typeSystemAhead_endings (ts : List Token) :
    typeSystemAhead (ts ++ E.left) = typeSystemAhead (ts ++ E.right) := by
  rcases ts with _ | ⟨⟨kind, span⟩, _ | ⟨u, ts⟩⟩
  · exact (typeSystemAhead_of_front_none E.left_end).trans (typeSystemAhead_of_front_none E.right_end).symm
  · cases kind with
    | string raw => exact (typeSystemAhead_of_end E.left_end).trans (typeSystemAhead_of_end E.right_end).symm
    | _ => rfl
  · cases kind <;> rfl

section

variable {set : Parser SelectionSet} (hSet : Agrees E set)

include hSet

theorem agrees_fieldOf : Agrees E (fieldOf set) := by
  apply agrees_fieldHead.bind
  intro head
  apply (agrees_peekIs .braceOpen).bind
  intro hasSet
  apply Agrees.ite _ (.pure _)
  apply hSet.bind
  intro selectionSet
  exact (agrees_spanFrom head.span).map _

theorem agrees_inlineFragmentOf : Agrees E (inlineFragmentOf set) := by
  apply (agrees_expect .ellipsis).bind
  intro dots
  apply agrees_optionalTypeCondition.bind
  intro typeCondition
  apply agrees_optionalDirectives.bind
  intro directives
  apply hSet.bind
  intro selectionSet
  exact (agrees_spanFrom dots.span).map _

theorem agrees_selectionOf : Agrees E (selectionOf set) := by
  intro ts s s' h
  refine h.look (looks_peekIs .ellipsis) (ofFront_nextIs .ellipsis (front_append_endings E ts)) ?_
  intro s₁ s₁' h₁
  cases hDots : nextIs .ellipsis (ts ++ E.left) with
  | false => exact (agrees_fieldOf hSet).map _ h₁
  | true =>
    cases ts with
    | nil =>
      rw [List.nil_append, nextIs_iff_front, E.left_end] at hDots
      cases hDots
    | cons dots ts =>
      refine h₁.look looks_startsInlineFragment (inlineAhead_endings dots ts) ?_
      intro s₂ s₂' h₂
      exact Agrees.ite ((agrees_inlineFragmentOf hSet).map _) (agrees_fragmentSpread.map _) h₂

end

theorem agrees_selectionSetWithin (room : Nat) : Agrees E (selectionSetWithin room) := by
  induction room with
  | zero => exact agrees_tooDeep
  | succ room ih =>
    have hSelection : Consumes (selectionOf (selectionSetWithin room)) :=
      (implements_selectionOf (implements_selectionSetWithin room)).consumes selection_startsWith
    exact agrees_nested ((agrees_enclosedSome .selectionSet (agrees_selectionOf ih) hSelection).map _)

theorem agrees_selectionSet : Agrees E selectionSet := agrees_selectionSetWithin maxDepth

/-! ## Definitions -/

theorem agrees_optionalDefault : Agrees E optionalDefault := by
  intro ts s s' h
  refine h.look (looks_peekIs .equals) (ofFront_nextIs .equals (front_append_endings E ts)) ?_
  intro s₁ s₁' h₁
  cases hIs : nextIs .equals (ts ++ E.left) with
  | false => exact .ok h₁
  | true =>
    refine (h₁.nextOf (nextIs_iff_front.mp hIs)).bind fun _ => ?_
    exact (agrees_value .variableDefault).map _

theorem agrees_variableDefinition : Agrees E variableDefinition := by
  apply agrees_reference.bind
  intro declared
  apply (agrees_expect .colon).bind
  intro _
  apply agrees_typeReference.bind
  intro type
  apply agrees_optionalDefault.bind
  intro defaultValue
  exact (agrees_spanFrom declared.span).map _

theorem agrees_variableDefinitions : Agrees E variableDefinitions :=
  (agrees_enclosedSome .variableDefinitions agrees_variableDefinition
    (implements_variableDefinition.consumes variableDefinition_startsWith)).map _

theorem agrees_optionalName : Agrees E optionalName := by
  apply agrees_onKindOnly rfl
  intro kind
  exact .ite (agrees_name.map _) (.pure none)

theorem agrees_operationType : Agrees E operationType := by
  apply agrees_onKind rfl
  intro kind ts s s' hFront h
  cases kind with
  | none => exact agrees_unexpected _ h
  | some kind =>
    cases kind with
    | name word =>
      dsimp only
      cases OperationKind.ofKeyword? word with
      | none => exact agrees_unexpected _ h
      | some kind => exact (h.nextOf hFront).bind fun t => .pure (kind, t.span)
    | _ => exact agrees_unexpected _ h

theorem agrees_operationDefinition : Agrees E operationDefinition := by
  apply (agrees_peekIs .braceOpen).bind
  intro isShorthand
  cases isShorthand with
  | true => exact agrees_selectionSet.map _
  | false =>
    apply agrees_operationType.bind
    rintro ⟨kind, start⟩
    apply agrees_optionalName.bind
    intro name
    apply (agrees_optionalList .parenOpen agrees_variableDefinitions).bind
    intro variableDefinitions
    apply agrees_optionalDirectives.bind
    intro directives
    apply agrees_selectionSet.bind
    intro selectionSet
    exact (agrees_spanFrom start).map _

theorem agrees_fragmentDefinition : Agrees E fragmentDefinition := by
  apply (agrees_expectWord "fragment").bind
  intro start
  apply agrees_fragmentName.bind
  intro name
  apply agrees_typeCondition.bind
  intro typeCondition
  apply agrees_optionalDirectives.bind
  intro directives
  apply agrees_selectionSet.bind
  intro selectionSet
  exact (agrees_spanFrom start).map _

theorem agrees_startsOperation : Agrees E startsOperation := by
  apply agrees_onKindOnly rfl
  intro kind
  cases kind with
  | none => exact .pure false
  | some kind =>
    cases kind with
    | punctuator p => cases p <;> exact .pure _
    | _ => exact .pure _

theorem agrees_peekTypeSystem : Agrees E peekTypeSystem :=
  fun ts _ _ h => h.answer looks_peekTypeSystem (typeSystemAhead_endings ts)

theorem agrees_definition : Agrees E definition := by
  apply agrees_startsOperation.bind
  intro isOperation
  cases isOperation with
  | true => exact agrees_operationDefinition.map _
  | false =>
    apply (agrees_peekIsWord "fragment").bind
    intro isFragment
    cases isFragment with
    | true => exact agrees_fragmentDefinition.map _
    | false =>
      apply agrees_peekTypeSystem.bind
      intro found
      cases found with
      | some found => exact agrees_throwHere fun _ _ => rfl
      | none => exact agrees_unexpected _

theorem agrees_document : Agrees E document := by
  have hMore : OfFront fun ts => !isEnd (nextKind ts) := fun _ _ h => congrArg not (ofFront_isEnd h)
  apply agrees_definition.bind
  intro first
  exact (agrees_repeatWhile looks_notAtEnd hMore rfl agrees_definition
    (implements_definition.consumes definition_startsWith)).map _

/-! ## Symbols -/

theorem agrees_construct (symbol : GrammarSymbol) : Agrees E (construct symbol) := by
  cases symbol with
  | document => exact agrees_document.map _
  | definition => exact agrees_definition.map _
  | operationDefinition => exact agrees_operationDefinition.map _
  | operationType => exact agrees_operationType.map _
  | variableDefinitions => exact agrees_variableDefinitions.map _
  | variableDefinition => exact agrees_variableDefinition.map _
  | selectionSet => exact agrees_selectionSet.map _
  | selection => exact (agrees_selectionOf agrees_selectionSet).map _
  | field => exact (agrees_fieldOf agrees_selectionSet).map _
  | responseAlias => exact agrees_responseAlias.map _
  | arguments => exact (agrees_arguments .fieldArguments).map _
  | argument => exact agrees_argument.map _
  | directives => exact agrees_directives.map _
  | directive => exact agrees_directive.map _
  | fragmentSpread => exact agrees_fragmentSpread.map _
  | fragmentName => exact agrees_fragmentName.map _
  | inlineFragment => exact (agrees_inlineFragmentOf agrees_selectionSet).map _
  | fragmentDefinition => exact agrees_fragmentDefinition.map _
  | typeCondition => exact agrees_typeCondition.map _
  | type => exact agrees_typeReference.map _
  | namedType => exact agrees_namedType.map _
  | listType => exact (agrees_listTypeOf agrees_typeReference).map _
  | nonNullType => exact agrees_nonNullType.map _
  | value => exact (agrees_value .argument).map _
  | constValue => exact (agrees_value .constant).map _
  | booleanOrNullOrEnum => exact agrees_booleanNullOrEnum.map _
  | reference => exact agrees_reference.map _
  | listValue =>
    exact (agrees_listValueOf (agrees_value .argument) (implements_value .argument) (value_startsWith true)).map _
  | objectValue => exact (agrees_objectValueOf (agrees_value .argument) (implements_value .argument)).map _
  | intValue => exact agrees_intValue.map _
  | floatValue => exact agrees_floatValue.map _
  | stringValue => exact agrees_stringValue.map _
  | name => exact agrees_name.map _

theorem agrees_whole {α : Type} {p : Parser α} (hp : Agrees E p) : Agrees E (whole p) := by
  apply hp.bind
  intro a
  exact agrees_expectEnd.map fun _ => a

end Parser

/-! ## Whole parses -/

/-- What is parsed before two endings is the same construct, or errors that are alike. -/
theorem parseTokens_endings (E : Endings) (symbol : GrammarSymbol) {ts : List Token}
    (hTokens : ∀ t ∈ ts, t.kind ≠ .endOfInput) :
    (∃ n, parseTokens (ts ++ E.left) symbol = .ok n ∧ parseTokens (ts ++ E.right) symbol = .ok n) ∨
      ∃ d e, parseTokens (ts ++ E.left) symbol = .error d ∧ parseTokens (ts ++ E.right) symbol = .error e ∧
        Parser.SameFault E d e := by
  have hAlike : Parser.Alike E ts (.ofTokens (ts ++ E.left)) (.ofTokens (ts ++ E.right)) :=
    ⟨hTokens, rfl, rfl, rfl, rfl, rfl⟩
  have hRuns := Parser.agrees_whole (Parser.agrees_construct symbol) hAlike
  unfold parseTokens Parser.result EStateM.run
  generalize Parser.whole (Parser.construct symbol) (.ofTokens (ts ++ E.left)) = r at hRuns ⊢
  generalize Parser.whole (Parser.construct symbol) (.ofTokens (ts ++ E.right)) = r' at hRuns ⊢
  cases hRuns with
  | ok => exact .inl ⟨_, rfl, rfl⟩
  | error hFault => exact .inr ⟨_, _, rfl, rfl, hFault⟩

theorem front_of_endOfInput {e : Token} (he : e.kind = .endOfInput) (us : List Token) : front (e :: us) = none := by
  rw [front, nextKind_cons, he]
  rfl

/-- A token that marks the end of the input hides what comes after it. Without it the same is parsed, or the error is of
the same variant. -/
theorem parseTokens_past_end (symbol : GrammarSymbol) (ts : List Token) (e : Token) (us vs : List Token)
    (hTokens : ∀ t ∈ ts, t.kind ≠ .endOfInput) (he : e.kind = .endOfInput) :
    parseTokens (ts ++ e :: us) symbol = parseTokens (ts ++ e :: vs) symbol ∧
      (∀ n, parseTokens ts symbol = .ok n ↔ parseTokens (ts ++ [e]) symbol = .ok n) ∧
      ∀ d f, parseTokens ts symbol = .error d → parseTokens (ts ++ [e]) symbol = .error f →
        d.kind.ctorIdx = f.kind.ctorIdx := by
  constructor
  · let E : Endings := ⟨e :: us, e :: vs, front_of_endOfInput he us, front_of_endOfInput he vs⟩
    obtain ⟨n, hLeft, hRight⟩ | ⟨d, f, hLeft, hRight, hFault⟩ := parseTokens_endings E symbol hTokens
    · exact hLeft.trans hRight.symm
    · rw [hLeft, hRight, hFault.eq rfl]
  · let E : Endings := ⟨[], [e], rfl, front_of_endOfInput he []⟩
    have hNone : ts ++ E.left = ts := List.append_nil ts
    obtain ⟨n, hLeft, hRight⟩ | ⟨d, f, hLeft, hRight, hFault⟩ := parseTokens_endings E symbol hTokens
    · rw [hNone] at hLeft
      rw [hLeft, hRight]
      exact ⟨fun _ => Iff.rfl, fun _ _ h => nomatch h⟩
    · rw [hNone] at hLeft
      rw [hLeft, hRight]
      refine ⟨fun _ => ⟨nofun, nofun⟩, ?_⟩
      rintro _ _ ⟨⟩ ⟨⟩
      exact hFault.variant

/-- A bracket behind the end of the input does not close a selection set. -/
theorem parseTokens_past_end_brace :
    let token (kind : TokenKind) : Token := ⟨kind, .emptyAt .origin⟩
    let ts := [token (.punctuator .braceOpen), token (.name "a")]
    let close := token (.punctuator .braceClose)
    let e := token .endOfInput
    (parseTokens (ts ++ [close]) .document).isOk = true ∧ (parseTokens (ts ++ [e]) .document).isOk = false ∧
      parseTokens (ts ++ [e, close]) .document = parseTokens (ts ++ [e]) .document ∧
      (∀ n, parseTokens ts .document = .ok n ↔ parseTokens (ts ++ [e]) .document = .ok n) ∧
      ∀ d f, parseTokens ts .document = .error d → parseTokens (ts ++ [e]) .document = .error f →
        d.kind.ctorIdx = f.kind.ctorIdx := by
  intro token ts close e
  exact ⟨by decide +kernel, by decide +kernel, parseTokens_past_end .document ts e [close] [] (by decide) rfl⟩

end GraphQLSyntax
