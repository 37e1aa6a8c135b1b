import GraphQLSyntax.Parse
import GraphQLSyntax.Proofs.Lookahead.Steps

/-!
# The steps of all productions

Every production is taken apart into its steps. The third token to come is only looked at behind three dots and the word
for a type condition.
-/

set_option autoImplicit false

namespace GraphQLSyntax

namespace Parser

variable {α β : Type}

/-! ## What productions have in common -/

def Steps.pure (a : α) : Steps (pure a) := .one (.pure a)

def Steps.map {p : Parser α} (steps : Steps p) (f : α → β) : Steps (do return f (← p)) :=
  steps.bind fun a => .pure (f a)

def Steps.ite {p q : Parser α} {c : Prop} [decidable : Decidable c] (yes : Steps p) (no : Steps q) :
    Steps (if c then p else q) :=
  match decidable with
  | .isTrue _ => yes
  | .isFalse _ => no

def peekKindNthSteps {n : Nat} (h : n < maxLookahead) : Steps (peekKindNth n) := (Steps.one (.peekNth h)).map _

def peekKindSteps : Steps peekKind := peekKindNthSteps (by decide)

def peekIsSteps (q : Punctuator) : Steps (peekIs q) := peekKindSteps.map _

def peekIsWordSteps (word : String) : Steps (peekIsWord word) := peekKindSteps.map _

def isAtEndSteps : Steps isAtEnd := .one .isAtEnd

def endSpanSteps : Steps endSpan := (Steps.one .get).map _

def spanFromSteps (first : Span) : Steps (spanFrom first) := (Steps.one .get).map _

def unexpectedSteps (expected : Expected) : Steps (unexpected expected : Parser α) := .one (.unexpected expected)

def peekSpanSteps : Steps peekSpan :=
  (Steps.one (.peekNth (by decide))).bind fun t =>
    match t with
    | some t => .pure t.span
    | none => endSpanSteps

/-- An error of another kind is raised about the next token. -/
def throwHereSteps {f : Span → ParseError} (h : ∀ span, (f span).kind.reportsToken = false) :
    Steps (do throw (f (← peekSpan)) : Parser α) :=
  peekSpanSteps.bind fun span => .one (.throw (h span))

def nextSteps : Steps next := .one .next

def expectSteps (q : Punctuator) : Steps (expect q) :=
  (peekIsSteps q).bind fun _ => .ite nextSteps (unexpectedSteps _)

def expectWordSteps (word : String) : Steps (expectWord word) :=
  (peekIsWordSteps word).bind fun _ => .ite (nextSteps.map _) (unexpectedSteps _)

def nameSteps : Steps name :=
  peekKindSteps.bind fun kind =>
    match kind.bind TokenKind.nameText? with
    | some _ => nextSteps.map _
    | none => unexpectedSteps _

def expectEndSteps : Steps expectEnd :=
  isAtEndSteps.bind fun atEnd =>
    match atEnd with
    | true => .pure ()
    | false => unexpectedSteps _

/-! ## Enclosures -/

def openEnclosureSteps (e : Enclosure) : Steps (openEnclosure e) :=
  (expectSteps e.opening).bind fun opening => .bind (.one (.modify fun _ => rfl)) fun _ => .pure opening.span

def closeInnermostSteps : Steps closeInnermost := .one (.modify fun _ => rfl)

def refuseEndSteps : Steps refuseEnd :=
  isAtEndSteps.bind fun atEnd =>
    match atEnd with
    | false => .pure ()
    | true => (Steps.one .get).bind fun s =>
      match s.openers with
      | [] => .pure ()
      | _ :: _ => closeInnermostSteps.bind fun _ => endSpanSteps.bind fun _ => .one (.throw rfl)

def closeEnclosureSteps (e : Enclosure) : Steps (closeEnclosure e) :=
  refuseEndSteps.bind fun _ => (expectSteps e.closing).bind fun _ => closeInnermostSteps

def hasMoreSteps (e : Enclosure) : Steps (hasMore e) :=
  (peekIsSteps e.closing).bind fun _ => .ite (.pure false) (isAtEndSteps.map _)

def collectSteps {more : Parser Bool} {item : Parser α} (moreSteps : Steps more) (itemSteps : Steps item) :
    (tokens : List Token) → (items : List α) → Steps (collect more item tokens items)
  | [], _ => moreSteps.bind fun _ => .ite (.pure _) (.pure _)
  | _ :: tokens, items =>
    moreSteps.bind fun _ => .ite
      (itemSteps.bind fun i => collectSteps moreSteps itemSteps tokens (i :: items)) (.pure _)

def repeatWhileSteps {more : Parser Bool} {item : Parser α} (moreSteps : Steps more) (itemSteps : Steps item) :
    Steps (repeatWhile more item) :=
  (Steps.one .get).bind fun s => collectSteps moreSteps itemSteps s.stream.toList []

def enclosureRestSteps (e : Enclosure) (opening : Span) {item : Parser α} (itemSteps : Steps item) :
    Steps (do
      let items ← repeatWhile (hasMore e) item
      closeEnclosure e
      return (items, ← spanFrom opening)) :=
  (repeatWhileSteps (hasMoreSteps e) itemSteps).bind fun _ => (closeEnclosureSteps e).bind fun _ =>
    (spanFromSteps opening).map _

def enclosedSteps (e : Enclosure) {item : Parser α} (itemSteps : Steps item) : Steps (enclosed e item) :=
  (openEnclosureSteps e).bind fun opening => enclosureRestSteps e opening itemSteps

def enclosedSomeSteps (e : Enclosure) {item : Parser α} (itemSteps : Steps item) : Steps (enclosedSome e item) :=
  (openEnclosureSteps e).bind fun opening => (peekIsSteps e.closing).bind fun closes =>
    match closes with
    | true => nextSteps.bind fun _ => (spanFromSteps opening).bind fun _ => .one (.throw rfl)
    | false => enclosureRestSteps e opening itemSteps

def tooDeepSteps : Steps (tooDeep : Parser α) := throwHereSteps fun _ => rfl

def nestedSteps {p : Parser α} (steps : Steps p) : Steps (nested p) := steps.nested tooDeepSteps

/-! ## Values -/

def referenceSteps : Steps reference :=
  (expectSteps .dollar).bind fun dollar => nameSteps.bind fun _ => (spanFromSteps dollar.span).map _

theorem step_booleanNullOrEnum : Step booleanNullOrEnum := by
  apply Step.literal
  rintro ⟨kind, span⟩
  cases kind with
  | boolean | null | name => exact .inl ⟨_, rfl⟩
  | _ => exact .inr ⟨_, rfl, .inr ⟨_, rfl⟩⟩

theorem step_intValue : Step intValue := by
  apply Step.literal
  rintro ⟨kind, span⟩
  cases kind with
  | int raw =>
    dsimp only
    cases readInt64 raw.toList with
    | ok value => exact .inl ⟨_, rfl⟩
    | error fault => exact .inr ⟨_, rfl, .inl rfl⟩
  | _ => exact .inr ⟨_, rfl, .inr ⟨_, rfl⟩⟩

theorem step_floatValue : Step floatValue := by
  apply Step.literal
  rintro ⟨kind, span⟩
  cases kind with
  | float raw =>
    dsimp only
    cases (Binary64.ofText? raw.toList).filter Binary64.isFinite with
    | some value => exact .inl ⟨_, rfl⟩
    | none => exact .inr ⟨_, rfl, .inl rfl⟩
  | _ => exact .inr ⟨_, rfl, .inr ⟨_, rfl⟩⟩

theorem step_stringValue : Step stringValue := by
  apply Step.literal
  rintro ⟨kind, span⟩
  cases kind with
  | string raw =>
    dsimp only
    cases decodeStringLiteral raw with
    | ok value => exact .inl ⟨_, rfl⟩
    | error fault => exact .inr ⟨_, rfl, .inl rfl⟩
  | _ => exact .inr ⟨_, rfl, .inr ⟨_, rfl⟩⟩

def listValueOfSteps {item : Parser Value} (itemSteps : Steps item) : Steps (listValueOf item) :=
  (enclosedSteps .listValue itemSteps).map _

def objectFieldOfSteps {item : Parser Value} (itemSteps : Steps item) : Steps (objectFieldOf item) :=
  nameSteps.bind fun name => (expectSteps .colon).bind fun _ => itemSteps.bind fun _ => (spanFromSteps name.span).map _

def objectValueOfSteps {item : Parser Value} (itemSteps : Steps item) : Steps (objectValueOf item) :=
  (enclosedSteps .objectValue (objectFieldOfSteps itemSteps)).map _

def valueOfSteps (context : ValueContext) {item : Parser Value} (itemSteps : Steps item) :
    Steps (valueOf context item) :=
  peekKindSteps.bind fun kind =>
    match kind with
    | some (.punctuator .dollar) =>
      match context.constantName? with
      | some _ => throwHereSteps fun _ => rfl
      | none => referenceSteps.map _
    | some (.int _) => (Steps.one step_intValue).map _
    | some (.float _) => (Steps.one step_floatValue).map _
    | some (.string _) => (Steps.one step_stringValue).map _
    | some (.boolean _) | some .null | some (.name _) => .one step_booleanNullOrEnum
    | some (.punctuator .bracketOpen) => (listValueOfSteps itemSteps).map _
    | some (.punctuator .braceOpen) => (objectValueOfSteps itemSteps).map _
    | none | some .endOfInput | some (.error _ _) | some (.punctuator .bang) | some (.punctuator .parenOpen)
    | some (.punctuator .parenClose) | some (.punctuator .ellipsis) | some (.punctuator .colon)
    | some (.punctuator .equals) | some (.punctuator .atSign) | some (.punctuator .bracketClose)
    | some (.punctuator .braceClose) => unexpectedSteps _

def valueWithinSteps (context : ValueContext) : (room : Nat) → Steps (valueWithin context room)
  | 0 => tooDeepSteps
  | room + 1 => nestedSteps (valueOfSteps context (valueWithinSteps context room))

def valueSteps (context : ValueContext) : Steps (value context) := valueWithinSteps context maxDepth

/-! ## Type references -/

def namedTypeSteps : Steps namedType :=
  peekKindSteps.bind fun kind =>
    match kind == some .null with
    | true => throwHereSteps fun _ => rfl
    | false => nameSteps.map _

def listTypeOfSteps {item : Parser TypeReference} (itemSteps : Steps item) : Steps (listTypeOf item) :=
  (openEnclosureSteps .listType).bind fun opening => refuseEndSteps.bind fun _ => itemSteps.bind fun _ =>
    (closeEnclosureSteps .listType).bind fun _ => (spanFromSteps opening).map _

def nullableTypeOfSteps {item : Parser TypeReference} (itemSteps : Steps item) : Steps (nullableTypeOf item) :=
  (peekIsSteps .bracketOpen).bind fun _ => .ite ((listTypeOfSteps itemSteps).map _) (namedTypeSteps.map _)

def finishNonNullSteps (inner : NullableType) : Steps (finishNonNull inner) :=
  (expectSteps .bang).bind fun _ => (spanFromSteps inner.span).map _

def typeReferenceOfSteps {item : Parser TypeReference} (itemSteps : Steps item) : Steps (typeReferenceOf item) :=
  (nullableTypeOfSteps itemSteps).bind fun t => (peekIsSteps .bang).bind fun _ =>
    .ite ((finishNonNullSteps t).map _) (.pure _)

def typeReferenceWithinSteps : (room : Nat) → Steps (typeReferenceWithin room)
  | 0 => tooDeepSteps
  | room + 1 => nestedSteps (typeReferenceOfSteps (typeReferenceWithinSteps room))

def typeReferenceSteps : Steps typeReference := typeReferenceWithinSteps maxDepth

def nonNullTypeSteps : Steps nonNullType :=
  nestedSteps ((nullableTypeOfSteps typeReferenceSteps).bind finishNonNullSteps)

/-! ## Arguments and directives -/

def argumentSteps : Steps argument :=
  nameSteps.bind fun name => (expectSteps .colon).bind fun _ => (valueSteps .argument).bind fun _ =>
    (spanFromSteps name.span).map _

def argumentsSteps (e : Enclosure) : Steps (arguments e) := (enclosedSomeSteps e argumentSteps).map _

/-- A list that is there if a punctuator comes next. -/
def optionalListSteps {p : Parser (List α)} (q : Punctuator) (steps : Steps p) :
    Steps (do if ← peekIs q then p else return []) :=
  (peekIsSteps q).bind fun _ => .ite steps (.pure [])

def directiveSteps : Steps directive :=
  (expectSteps .atSign).bind fun sign => nameSteps.bind fun _ =>
    (optionalListSteps .parenOpen (argumentsSteps .directiveArguments)).bind fun _ => (spanFromSteps sign.span).map _

def directivesSteps : Steps directives :=
  directiveSteps.bind fun _ => (repeatWhileSteps (peekIsSteps .atSign) directiveSteps).map _

def optionalDirectivesSteps : Steps optionalDirectives := optionalListSteps .atSign directivesSteps

/-! ## Fragments and fields -/

def finishAliasSteps (name : Name) : Steps (finishAlias name) :=
  (expectSteps .colon).bind fun _ => (spanFromSteps name.span).map _

def responseAliasSteps : Steps responseAlias := nameSteps.bind finishAliasSteps

def fragmentNameSteps : Steps fragmentName :=
  (peekIsWordSteps "on").bind fun isOn =>
    match isOn with
    | true => throwHereSteps fun _ => rfl
    | false => nameSteps

def typeConditionSteps : Steps typeCondition :=
  (expectWordSteps "on").bind fun on => namedTypeSteps.bind fun _ => (spanFromSteps on).map _

def fragmentSpreadSteps : Steps fragmentSpread :=
  (expectSteps .ellipsis).bind fun dots => fragmentNameSteps.bind fun _ => optionalDirectivesSteps.bind fun _ =>
    (spanFromSteps dots.span).map _

def fieldNameSteps : Steps fieldName :=
  nameSteps.bind fun first => (peekIsSteps .colon).bind fun _ =>
    .ite ((finishAliasSteps first).bind fun _ => nameSteps.map _) (.pure _)

def fieldHeadSteps : Steps fieldHead :=
  fieldNameSteps.bind fun _ => (optionalListSteps .parenOpen (argumentsSteps .fieldArguments)).bind fun _ =>
    optionalDirectivesSteps.bind fun _ => (spanFromSteps _).map _

def fieldOfSteps {set : Parser SelectionSet} (setSteps : Steps set) : Steps (fieldOf set) :=
  fieldHeadSteps.bind fun head => (peekIsSteps .braceOpen).bind fun _ =>
    .ite (setSteps.bind fun _ => (spanFromSteps head.span).map _) (.pure _)

def optionalTypeConditionSteps : Steps optionalTypeCondition :=
  (peekIsWordSteps "on").bind fun _ => .ite (typeConditionSteps.map _) (.pure none)

def inlineFragmentOfSteps {set : Parser SelectionSet} (setSteps : Steps set) : Steps (inlineFragmentOf set) :=
  (expectSteps .ellipsis).bind fun dots => optionalTypeConditionSteps.bind fun _ =>
    optionalDirectivesSteps.bind fun _ => setSteps.bind fun _ => (spanFromSteps dots.span).map _

def startsInlineFragmentSteps : Steps startsInlineFragment :=
  (peekKindNthSteps (by decide)).bind fun kind =>
    match kind with
    | some (.punctuator .atSign) | some (.punctuator .braceOpen) => .pure true
    | some (.name _) => .ite ((peekKindNthSteps (by decide)).map _) (.pure false)
    | none | some (.int _) | some (.float _) | some (.string _) | some (.boolean _) | some .null | some .endOfInput
    | some (.error _ _) | some (.punctuator .dollar) | some (.punctuator .bang) | some (.punctuator .parenOpen)
    | some (.punctuator .parenClose) | some (.punctuator .ellipsis) | some (.punctuator .colon)
    | some (.punctuator .equals) | some (.punctuator .bracketOpen) | some (.punctuator .bracketClose)
    | some (.punctuator .braceClose) => .pure false

def selectionOfSteps {set : Parser SelectionSet} (setSteps : Steps set) : Steps (selectionOf set) :=
  (peekIsSteps .ellipsis).bind fun _ => .ite
    (startsInlineFragmentSteps.bind fun _ =>
      .ite ((inlineFragmentOfSteps setSteps).map _) (fragmentSpreadSteps.map _))
    ((fieldOfSteps setSteps).map _)

def selectionSetWithinSteps : (room : Nat) → Steps (selectionSetWithin room)
  | 0 => tooDeepSteps
  | room + 1 =>
    nestedSteps ((enclosedSomeSteps .selectionSet (selectionOfSteps (selectionSetWithinSteps room))).map _)

def selectionSetSteps : Steps selectionSet := selectionSetWithinSteps maxDepth

/-! ## Definitions -/

def optionalDefaultSteps : Steps optionalDefault :=
  (peekIsSteps .equals).bind fun _ =>
    .ite (nextSteps.bind fun _ => (valueSteps .variableDefault).map _) (.pure none)

def variableDefinitionSteps : Steps variableDefinition :=
  referenceSteps.bind fun declared => (expectSteps .colon).bind fun _ => typeReferenceSteps.bind fun _ =>
    optionalDefaultSteps.bind fun _ => (spanFromSteps declared.span).map _

def variableDefinitionsSteps : Steps variableDefinitions :=
  (enclosedSomeSteps .variableDefinitions variableDefinitionSteps).map _

def optionalNameSteps : Steps optionalName :=
  peekKindSteps.bind fun _ => .ite (nameSteps.map _) (.pure none)

def keywordSteps (kind? : Option OperationKind) :
    Steps (match kind? with
      | some kind => do return (kind, (← next).span)
      | none => unexpected .operationType) :=
  match kind? with
  | some _ => nextSteps.map _
  | none => unexpectedSteps _

def operationTypeSteps : Steps operationType :=
  peekKindSteps.bind fun kind =>
    match kind with
    | some (.name word) => keywordSteps (OperationKind.ofKeyword? word)
    | none | some (.punctuator _) | some (.int _) | some (.float _) | some (.string _) | some (.boolean _) | some .null
    | some .endOfInput | some (.error _ _) => unexpectedSteps _

def operationDefinitionSteps : Steps operationDefinition :=
  (peekIsSteps .braceOpen).bind fun _ => .ite (selectionSetSteps.map _)
    (operationTypeSteps.bind fun (_, start) => optionalNameSteps.bind fun _ =>
      (optionalListSteps .parenOpen variableDefinitionsSteps).bind fun _ => optionalDirectivesSteps.bind fun _ =>
        selectionSetSteps.bind fun _ => (spanFromSteps start).map _)

def fragmentDefinitionSteps : Steps fragmentDefinition :=
  (expectWordSteps "fragment").bind fun start => fragmentNameSteps.bind fun _ => typeConditionSteps.bind fun _ =>
    optionalDirectivesSteps.bind fun _ => selectionSetSteps.bind fun _ => (spanFromSteps start).map _

def peekTypeSystemSteps : Steps peekTypeSystem :=
  peekKindSteps.bind fun kind => (peekKindNthSteps (by split <;> split <;> decide)).bind fun kind =>
    match kind with
    | some (.name _) => .pure _
    | none | some (.punctuator _) | some (.int _) | some (.float _) | some (.string _) | some (.boolean _) | some .null
    | some .endOfInput | some (.error _ _) => .pure none

def startsOperationSteps : Steps startsOperation :=
  peekKindSteps.bind fun kind =>
    match kind with
    | some (.punctuator .braceOpen) => .pure true
    | some (.name _) => .pure _
    | none | some (.int _) | some (.float _) | some (.string _) | some (.boolean _) | some .null | some .endOfInput
    | some (.error _ _) | some (.punctuator .dollar) | some (.punctuator .bang) | some (.punctuator .parenOpen)
    | some (.punctuator .parenClose) | some (.punctuator .ellipsis) | some (.punctuator .colon)
    | some (.punctuator .equals) | some (.punctuator .atSign) | some (.punctuator .bracketOpen)
    | some (.punctuator .bracketClose) | some (.punctuator .braceClose) => .pure false

def definitionSteps : Steps definition :=
  startsOperationSteps.bind fun _ => .ite (operationDefinitionSteps.map _)
    ((peekIsWordSteps "fragment").bind fun _ => .ite (fragmentDefinitionSteps.map _)
      (peekTypeSystemSteps.bind fun found =>
        match found with
        | some _ => throwHereSteps fun _ => rfl
        | none => unexpectedSteps _))

def documentSteps : Steps document :=
  definitionSteps.bind fun _ => (repeatWhileSteps (isAtEndSteps.map _) definitionSteps).map _

/-! ## Symbols -/

def constructSteps : (symbol : GrammarSymbol) → Steps (construct symbol)
  | .document => documentSteps.map _
  | .definition => definitionSteps.map _
  | .operationDefinition => operationDefinitionSteps.map _
  | .operationType => operationTypeSteps.map _
  | .variableDefinitions => variableDefinitionsSteps.map _
  | .variableDefinition => variableDefinitionSteps.map _
  | .selectionSet => selectionSetSteps.map _
  | .selection => (selectionOfSteps selectionSetSteps).map _
  | .field => (fieldOfSteps selectionSetSteps).map _
  | .responseAlias => responseAliasSteps.map _
  | .arguments => (argumentsSteps .fieldArguments).map _
  | .argument => argumentSteps.map _
  | .directives => directivesSteps.map _
  | .directive => directiveSteps.map _
  | .fragmentSpread => fragmentSpreadSteps.map _
  | .fragmentName => fragmentNameSteps.map _
  | .inlineFragment => (inlineFragmentOfSteps selectionSetSteps).map _
  | .fragmentDefinition => fragmentDefinitionSteps.map _
  | .typeCondition => typeConditionSteps.map _
  | .type => typeReferenceSteps.map _
  | .namedType => namedTypeSteps.map _
  | .listType => (listTypeOfSteps typeReferenceSteps).map _
  | .nonNullType => nonNullTypeSteps.map _
  | .value => (valueSteps .argument).map _
  | .constValue => (valueSteps .constant).map _
  | .booleanOrNullOrEnum => (Steps.one step_booleanNullOrEnum).map _
  | .reference => referenceSteps.map _
  | .listValue => (listValueOfSteps (valueSteps .argument)).map _
  | .objectValue => (objectValueOfSteps (valueSteps .argument)).map _
  | .intValue => (Steps.one step_intValue).map _
  | .floatValue => (Steps.one step_floatValue).map _
  | .stringValue => (Steps.one step_stringValue).map _
  | .name => nameSteps.map _

def wholeSteps {p : Parser α} (steps : Steps p) : Steps (whole p) :=
  steps.bind fun a => expectEndSteps.map fun _ => a

/-! ## Whole parses -/

/-- Whatever the tokens are, no more than three of them were pulled and not consumed at any moment of a parse. When a
token is reported at last, no more than two were pulled after it. -/
theorem lookahead_bounded (symbol : GrammarSymbol) (tokens : List Token) :
    (∀ s ∈ (wholeSteps (constructSteps symbol)).moments (.ofTokens tokens),
      s.stream.buffer.length ≤ 3 ∧ ∃ consumed, tokens = consumed ++ (s.stream.buffer ++ s.stream.pending)) ∧
    ∀ e s, whole (construct symbol) (.ofTokens tokens) = .error e s → e.kind.reportsToken = true →
      ∃ before t looked expected, tokens = before ++ t :: (looked ++ s.stream.pending) ∧ looked.length ≤ 2 ∧
        (s.stream.buffer = t :: looked ∨ s.stream.buffer = looked) ∧ e = .unexpected t expected := by
  have hStart : (ParserState.ofTokens tokens).stream.buffer.length ≤ maxLookahead := Nat.zero_le _
  constructor
  · intro s hs
    obtain ⟨hRest, hWaiting⟩ := (wholeSteps (constructSteps symbol)).pulls hStart s hs
    exact ⟨hWaiting, hRest⟩
  · intro e s hRun hKind
    obtain ⟨before, t, looked, expected, hRest, hLooked, hReported⟩ :=
      (wholeSteps (constructSteps symbol)).reports hStart hRun hKind
    exact ⟨before, t, looked, expected, hRest, Nat.le_of_lt_succ hLooked, hReported⟩

/-- A description is reported after a look at what comes after it. -/
theorem lookahead_bounded_description :
    ∃ e s, whole (construct .document) (.ofTokens [⟨.string "\"\"", .emptyAt .origin⟩,
        ⟨.punctuator .bang, .emptyAt .origin⟩, ⟨.endOfInput, .emptyAt .origin⟩]) = .error e s ∧
      e.kind.reportsToken = true ∧ s.stream.pending.length = 1 ∧
      ∃ before t looked expected, [⟨.string "\"\"", .emptyAt .origin⟩, ⟨.punctuator .bang, .emptyAt .origin⟩,
          ⟨.endOfInput, .emptyAt .origin⟩] = before ++ t :: (looked ++ s.stream.pending) ∧ looked.length ≤ 2 ∧
        (s.stream.buffer = t :: looked ∨ s.stream.buffer = looked) ∧ e = .unexpected t expected := by
  have hRun : whole (construct .document) (.ofTokens [⟨.string "\"\"", .emptyAt .origin⟩,
      ⟨.punctuator .bang, .emptyAt .origin⟩, ⟨.endOfInput, .emptyAt .origin⟩]) =
      .error (.unexpected ⟨.string "\"\"", .emptyAt .origin⟩ .definition)
        ⟨⟨[⟨.string "\"\"", .emptyAt .origin⟩, ⟨.punctuator .bang, .emptyAt .origin⟩],
          [⟨.endOfInput, .emptyAt .origin⟩]⟩, [], 0, none⟩ := by rfl
  exact ⟨_, _, hRun, rfl, rfl, (lookahead_bounded .document _).2 _ _ hRun rfl⟩

/-- Behind three dots and the word for a type condition, all three are used. -/
example :
    let token (kind : TokenKind) : Token := ⟨kind, .emptyAt .origin⟩
    ((wholeSteps (constructSteps .selection)).moments
      (.ofTokens [token (.punctuator .ellipsis), token (.name "on"), token (.name "a")])).any
        (fun s => s.stream.buffer.length == 3) = true := by
  decide +kernel

end Parser

end GraphQLSyntax
