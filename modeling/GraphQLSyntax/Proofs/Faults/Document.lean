import GraphQLSyntax.Parse
import GraphQLSyntax.Proofs.Faults.Definition

/-!
# Documents, symbols and whole texts
-/

set_option autoImplicit false

namespace GraphQLSyntax

namespace Parser

/-! ## Definitions -/

theorem looks_startsOperation : Looks startsOperation fun ts => operationAhead (nextKind ts) := by
  refine looks_of_peeks startsOperation_peeks ((keepsOpeners_peekKindNth 0).bind ?_)
  intro k
  split
  · exact keepsOpeners_pure true
  · exact keepsOpeners_pure _
  · exact keepsOpeners_pure false

/-- The kinds of the tokens that a definition starts with. -/
def isDefinitionKind (k : TokenKind) : Prop := operationAhead (some k) = true ∨ k = .name "fragment"

theorem isClosing_of_isDefinitionKind (k : TokenKind) (hk : isDefinitionKind k) : k.isClosing = false := by
  obtain hAhead | rfl := hk
  · cases k with
    | punctuator p =>
      cases p with
      | braceOpen => rfl
      | _ => cases hAhead
    | _ => rfl
  · rfl

theorem starts_definition : Starts (phrases DefinitionPhrase Definition.nesting) isDefinitionKind := by
  rintro limit ts ⟨_, hPhrase, hNest⟩
  cases hPhrase with
  | operation hPhrase =>
    obtain ⟨k, hFront, hk⟩ := starts_operation ⟨_, hPhrase, hNest⟩
    exact ⟨k, hFront, .inl hk⟩
  | fragment hPhrase =>
    obtain ⟨k, hFront, hk⟩ := starts_fragment ⟨_, hPhrase, hNest⟩
    exact ⟨k, hFront, .inr hk⟩

theorem completable_definition : Completable (phrases DefinitionPhrase Definition.nesting) := by
  obtain ⟨ts, ⟨d, hPhrase, -⟩, hWell⟩ := completable_operation
  exact ⟨ts, ⟨_, .operation hPhrase, le_top⟩, hWell⟩

/-- The kind of type system definition that starts here, if one does. -/
def typeSystemAhead (ts : List Token) : Option DefinitionKind :=
  let described := match nextKind ts with
    | some (.string _) => true
    | _ => false
  match ts[if described then 1 else 0]?.map Token.kind with
  | some (.name word) => DefinitionKind.ofKeyword? word
  | _ => none

theorem looks_peekKindNth (n : Nat) : Looks (peekKindNth n) fun ts => ts[n]?.map Token.kind :=
  looks_of_peeks (peekKindNth_peeks n) (keepsOpeners_peekKindNth n)

theorem looks_peekTypeSystem : Looks peekTypeSystem typeSystemAhead := by
  intro s
  obtain ⟨s₁, hRun, hMoves, hOpeners⟩ := looks_peekKind s
  have hSame : s₁.rest = s.rest := by rw [hMoves.rest, List.nil_append]
  have hThen : ∀ n, ∃ s₂, (do
      match ← peekKindNth n with
      | some (.name word) => return DefinitionKind.ofKeyword? word
      | _ => return none : Parser (Option DefinitionKind)) s₁ =
        .ok (match s.rest[n]?.map Token.kind with
          | some (.name word) => DefinitionKind.ofKeyword? word
          | _ => none) s₂ ∧ Moves s [] s₂ ∧ s₂.openers = s.openers := by
    intro n
    obtain ⟨s₂, hRun₂, hMoves₂, hOpeners₂⟩ := looks_peekKindNth n s₁
    refine ⟨s₂, ?_, hMoves.trans hMoves₂, hOpeners₂.trans hOpeners⟩
    rw [bind_of_ok hRun₂, hSame]
    dsimp only
    cases s.rest[n]?.map Token.kind with
    | none => rfl
    | some k => cases k <;> rfl
  rw [peekTypeSystem, bind_of_ok hRun, typeSystemAhead]
  cases nextKind s.rest with
  | none => exact hThen 0
  | some k =>
    cases k with
    | string raw => exact hThen 1
    | _ => exact hThen 0

theorem typeSystemAhead_of_front_none {ts : List Token} (h : front ts = none) :
    typeSystemAhead ts = none := by
  cases ts with
  | nil => rfl
  | cons t us =>
    have hEnd := (isEnd_iff_front (t :: us)).mpr h
    rw [nextKind_cons, isEnd, beq_iff_eq] at hEnd
    simp [typeSystemAhead, hEnd]

theorem front_of_operationAhead {ts : List Token} (h : operationAhead (nextKind ts) = true) :
    ∃ k, front ts = some k ∧ operationAhead (some k) = true := by
  cases hFront : front ts with
  | some k =>
    rw [nextKind_of_front hFront] at h
    exact ⟨k, rfl, h⟩
  | none =>
    have hEnd := (isEnd_iff_front ts).mpr hFront
    cases hNext : nextKind ts with
    | none =>
      rw [hNext] at h
      cases h
    | some k =>
      rw [hNext] at h hEnd
      rw [isEnd, beq_iff_eq] at hEnd
      rw [hEnd] at h
      cases h

theorem operation_of_front {ts : List Token} {d : Definition} {k : TokenKind} (h : DefinitionPhrase ts d)
    (hFront : front ts = some k) (hAhead : operationAhead (some k) = true) :
    ∃ o, OperationPhrase ts o ∧ Definition.operation o = d := by
  cases h with
  | operation hPhrase => exact ⟨_, hPhrase, rfl⟩
  | fragment hPhrase =>
    obtain ⟨k', hFront', rfl⟩ := starts_fragment ⟨_, hPhrase, le_top⟩
    rw [hFront] at hFront'
    cases hFront'
    cases hAhead

theorem fragment_of_front {ts : List Token} {d : Definition} (h : DefinitionPhrase ts d)
    (hFront : front ts = some (.name "fragment")) : ∃ f, FragmentPhrase ts f ∧ Definition.fragment f = d := by
  cases h with
  | fragment hPhrase => exact ⟨_, hPhrase, rfl⟩
  | operation hPhrase =>
    obtain ⟨k', hFront', hk'⟩ := starts_operation ⟨_, hPhrase, le_top⟩
    rw [hFront] at hFront'
    cases hFront'
    cases hk'

/-- Neither an operation nor a fragment starts here. -/
theorem blocked_definition {ts : List Token} {K : Prospect} (hNotOperation : ¬ operationAhead (nextKind ts) = true)
    (hNotFragment : front ts ≠ some (.name "fragment")) :
    Blocked (phrases DefinitionPhrase Definition.nesting * K) [] ts := by
  refine blocked_of_starts (starts_definition.mul K) ?_ isClosing_of_isDefinitionKind
  rintro k hFront (hAhead | rfl)
  · rw [nextKind_of_front hFront] at hNotOperation
    exact hNotOperation hAhead
  · exact hNotFragment hFront

theorem foresees_definition :
    Foresees maxDepth definition (phrases DefinitionPhrase Definition.nesting) [] := by
  intro s K hRoom hCompletable hK
  rw [definition]
  refine Foretold.peek looks_startsOperation (.refl s hCompletable) ?_
  intro s₁ h₁ hSame₁
  rw [← hSame₁]
  split
  · rename_i hAhead
    obtain ⟨k, hFront, hAhead⟩ := front_of_operationAhead hAhead
    exact (foresees_operationDefinition.call (h₁.alternative .operation hFront completable_operation
      starts_definition (fun h => ⟨.operation h, rfl⟩)
      fun h hNext => operation_of_front h hNext hAhead) hRoom hK).map _
  rename_i hNotOperation
  refine Foretold.peek (looks_peekIsWord "fragment") h₁ ?_
  intro s₂ h₂ hSame₂
  rw [← hSame₂] at hNotOperation ⊢
  split
  · rename_i hFragment
    have hFront := nextIsWord_iff_front.mp hFragment
    exact (foresees_fragmentDefinition.call (h₂.alternative .fragment hFront completable_fragment
      starts_definition (fun h => ⟨.fragment h, rfl⟩) fragment_of_front) hRoom hK).map _
  rename_i hNotFragment
  refine Foretold.peek looks_peekTypeSystem h₂ ?_
  intro s₃ h₃ hSame₃
  rw [← hSame₃] at hNotOperation hNotFragment ⊢
  have hBlocked := blocked_definition (K := K) hNotOperation fun hFront =>
    hNotFragment (nextIsWord_iff_front.mpr hFront)
  cases hFound : typeSystemAhead s₃.rest with
  | none => exact h₃.unexpected hBlocked _
  | some found =>
    cases hFront : front s₃.rest with
    | none =>
      rw [typeSystemAhead_of_front_none hFront] at hFound
      cases hFound
    | some k =>
      exact h₃.refuseHere (fun span => ⟨_, span, .wrongDocumentKind found, []⟩) hFront (fun _ _ => rfl)
        (fun _ => rfl) (fun _ => rfl) hBlocked

/-! ## Whole texts -/

/-- A parser that is foreseen when nothing is in prospect after it. -/
def ForeseesWhole {α : Type} (p : Parser α) (A : Prospect) : Prop :=
  Completable A ∧ ∀ s, Foretold s A s.openers 1 (p s)

section

variable {α β : Type} {p : Parser α} {D : Production α} {nest : α → Nat} {stop : List Punctuator}

theorem Foresees.whole {A : Prospect} (hp : Foresees maxDepth p A stop) (hA : Completable A) :
    ForeseesWhole p A := by
  refine ⟨hA, fun s => ?_⟩
  have hRun := hp s.room_le (K := 1) (by rwa [mul_one]) (avoids_one _)
  rwa [mul_one] at hRun

theorem phrases_wrapped {wrap : α → β} {nest' : β → Nat} (hNest : ∀ a, nest' (wrap a) = nest a) :
    phrases (Wrapped wrap D) nest' = phrases D nest := by
  refine phrases_congr fun ts n => ⟨?_, ?_⟩
  · rintro ⟨_, ⟨a, ha, rfl⟩, hEq⟩
    exact ⟨a, ha, by rw [← hNest, hEq]⟩
  · rintro ⟨a, ha, hEq⟩
    exact ⟨wrap a, ⟨a, ha, rfl⟩, by rw [hNest, hEq]⟩

theorem ForeseesWhole.wrap {wrap : α → Construct} (hp : ForeseesWhole p (phrases D nest))
    (hNest : ∀ a, (wrap a).nesting = nest a) :
    ForeseesWhole (do return wrap (← p)) (phrases (Wrapped wrap D) Construct.nesting) := by
  rw [phrases_wrapped hNest]
  exact ⟨hp.1, fun s => (hp.2 s).map wrap⟩

end

theorem loop_definitions : Loop maxDepth (do return !(← isAtEnd)) (fun k => !isEnd k) definition
    (phrases DefinitionPhrase Definition.nesting)
    (phrases (Repeated DefinitionPhrase) (deepest Definition.nesting)) [] isDefinitionKind where
  more := looks_notAtEnd
  item := foresees_definition
  completable := completable_definition
  starts := starts_definition
  unroll := phrases_repeated
  goes := by
    rintro k (hAhead | rfl)
    · cases k with
      | endOfInput => cases hAhead
      | _ => rfl
    · rfl
  opens := isClosing_of_isDefinitionKind
  ends ts hEnd := by rw [(isEnd_iff_front ts).mpr hEnd]; rfl

theorem phrases_document : phrases DocumentPhrase Document.nesting =
    phrases DefinitionPhrase Definition.nesting *
      phrases (Repeated DefinitionPhrase) (deepest Definition.nesting) := by
  rw [← phrases_repeated_some (E := fun ts ds => ds ≠ [] ∧ Repeated DefinitionPhrase ts ds)
    fun _ _ => .rfl]
  refine phrases_congr fun ts n => ⟨?_, ?_⟩
  · rintro ⟨_, ⟨hSome, hPhrases⟩, hNest⟩
    exact ⟨_, ⟨hSome, hPhrases⟩, hNest⟩
  · rintro ⟨ds, ⟨hSome, hPhrases⟩, hNest⟩
    exact ⟨_, .mk hSome hPhrases, hNest⟩

theorem foresees_document : ForeseesWhole document (phrases DocumentPhrase Document.nesting) := by
  rw [phrases_document]
  have hRepeated : Completable (phrases (Repeated DefinitionPhrase) (deepest Definition.nesting)) :=
    completable_repeated
  have hCompletable := completable_definition.mul hRepeated
  refine ⟨hCompletable, fun s => ?_⟩
  have h := (Reached.refl s hCompletable).congr (R := phrases DefinitionPhrase Definition.nesting *
    (phrases (Repeated DefinitionPhrase) (deepest Definition.nesting) * 1)) (by rw [mul_one])
  rw [document]
  refine foresees_definition.bind h s.room_le (avoids_nil _) ?_
  intro first s₁ h₁
  refine (loop_definitions.repeatWhile ?_ (avoids_nil _) s.room_le h₁).bind fun _ _ h₂ => h₂
  intro limit vs hvs
  rw [mem_one.mp hvs]
  rfl

/-! ## Symbols -/

theorem foresees_construct (symbol : GrammarSymbol) :
    ForeseesWhole (construct symbol) (phrases (Derives symbol) Construct.nesting) := by
  cases symbol with
  | document => exact foresees_document.wrap fun _ => rfl
  | definition => exact (foresees_definition.whole completable_definition).wrap fun _ => rfl
  | operationDefinition =>
    exact (foresees_operationDefinition.whole completable_operation).wrap fun _ => rfl
  | operationType =>
    have hWhole := foresees_operationType.whole completable_operationType
    rw [← phrases_operationType] at hWhole
    have hWrapped : phrases (Wrapped Construct.operationType OperationTypePhrase) Construct.nesting =
        phrases OperationTypePhrase fun _ => 0 := phrases_wrapped fun _ => rfl
    refine ⟨by rw [Derives, hWrapped]; exact hWhole.1, fun s => ?_⟩
    rw [Derives, hWrapped]
    exact (hWhole.2 s).map fun r => Construct.operationType r.1
  | variableDefinitions =>
    exact (foresees_variableDefinitions.whole completable_variableDefinitions).wrap fun _ => rfl
  | variableDefinition =>
    exact (foresees_variableDefinition.whole completable_variableDefinition).wrap fun _ => rfl
  | selectionSet => exact (foresees_selectionSet.whole completable_selectionSet).wrap fun _ => rfl
  | selection =>
    exact ((foresees_selectionOf foresees_selectionSet).whole completable_selection).wrap fun _ => rfl
  | field => exact ((foresees_fieldOf foresees_selectionSet).whole (completable_field _)).wrap fun _ => rfl
  | responseAlias => exact (foresees_responseAlias.whole completable_alias).wrap fun _ => rfl
  | arguments => exact ((foresees_arguments rfl rfl).whole completable_arguments).wrap fun _ => rfl
  | argument => exact (foresees_argument.whole completable_argument).wrap fun _ => rfl
  | directives => exact (foresees_directives.whole completable_directives).wrap fun _ => rfl
  | directive => exact (foresees_directive.whole completable_directive).wrap fun _ => rfl
  | fragmentSpread => exact (foresees_fragmentSpread.whole completable_fragmentSpread).wrap fun _ => rfl
  | fragmentName =>
    have hWhole := foresees_fragmentName.whole completable_fragmentName
    rw [← phrases_fragmentName] at hWhole
    exact hWhole.wrap fun _ => rfl
  | inlineFragment =>
    exact ((foresees_inlineFragmentOf foresees_selectionSet).whole completable_inlineFragment).wrap
      fun _ => rfl
  | fragmentDefinition => exact (foresees_fragmentDefinition.whole completable_fragment).wrap fun _ => rfl
  | typeCondition => exact (foresees_typeCondition.whole completable_typeCondition).wrap fun _ => rfl
  | type => exact (foresees_typeReference.whole completable_type).wrap fun _ => rfl
  | namedType => exact (foresees_namedType.whole completable_namedType).wrap fun _ => rfl
  | listType => exact (foresees_listType.whole completable_listType).wrap fun _ => rfl
  | nonNullType => exact (foresees_nonNullType.whole completable_nonNull).wrap fun _ => rfl
  | value => exact ((foresees_value .argument).whole (completable_value _ _)).wrap fun _ => rfl
  | constValue => exact ((foresees_value .constant).whole (completable_value _ _)).wrap fun _ => rfl
  | booleanOrNullOrEnum =>
    exact (foresees_booleanNullOrEnum.whole completable_word).wrap fun _ => rfl
  | reference => exact (foresees_reference.whole completable_variable).wrap fun _ => rfl
  | listValue => exact (foresees_listValue.whole completable_list).wrap fun _ => rfl
  | objectValue => exact (foresees_objectValue.whole completable_object).wrap fun _ => rfl
  | intValue => exact (foresees_intValue.whole completable_int).wrap fun _ => rfl
  | floatValue => exact (foresees_floatValue.whole completable_float).wrap fun _ => rfl
  | stringValue => exact (foresees_stringValue.whole completable_string).wrap fun _ => rfl
  | name =>
    have hWhole := foresees_name.whole completable_name
    rw [← phrases_name] at hWhole
    exact hWhole.wrap fun _ => rfl

/-! ## Results -/

theorem expectEnd_run {s₀ s : ParserState} {P : Prospect} {os : List Opener} (h : Reached s₀ P os s 1) :
    (∃ s₁, expectEnd s = .ok () s₁ ∧ Reached s₀ P os s₁ 1 ∧ front s₁.rest = none) ∨
    ∃ e s₁, expectEnd s = .error e s₁ ∧ Failure s₀ P e := by
  obtain ⟨s₁, hRun, hMoves, hOpeners⟩ := looks_isAtEnd s
  have h₁ := h.look hMoves hOpeners
  have hSame : s₁.rest = s.rest := by rw [hMoves.rest, List.nil_append]
  have hExpect : expectEnd s = if isEnd (nextKind s₁.rest) then .ok () s₁ else unexpected .endOfInput s₁ := by
    rw [expectEnd, bind_of_ok hRun, ← hSame]
    dsimp only
    split <;> rfl
  rw [hExpect]
  split
  · rename_i hEnd
    exact .inl ⟨s₁, rfl, h₁, (isEnd_iff_front _).mp hEnd⟩
  · rename_i hMore
    obtain ⟨k, hFront⟩ : ∃ k, front s₁.rest = some k :=
      Option.ne_none_iff_exists'.mp fun hNone => hMore ((isEnd_iff_front _).mpr hNone)
    have hBlocked : Blocked 1 [] s₁.rest := by
      intro vs hvs hMem
      have hFront' := hvs.front_eq hFront
      rw [List.nil_append] at hMem
      rw [mem_one.mp hMem] at hFront'
      cases hFront'
    have hFails : Foretold s₀ P os 1 (Parser.unexpected .endOfInput s₁ : EStateM.Result _ _ Unit) :=
      h₁.unexpected hBlocked _
    cases hError : (Parser.unexpected .endOfInput s₁ : EStateM.Result _ _ Unit) with
    | ok u s₂ => exact absurd hError (unexpected_ne_ok _ _ _ _)
    | error e s₂ =>
      rw [hError] at hFails
      exact .inr ⟨e, s₂, rfl, hFails⟩

end Parser

/-- Why there is no result. -/
def reason? {α : Type} : Except ParseError α → Option ParseError
  | .ok _ => none
  | .error e => some e

theorem eq_error_of_reason {α : Type} {r : Except ParseError α} {e : ParseError} (h : reason? r = some e) :
    r = .error e := by
  cases r with
  | ok a => cases h
  | error e' =>
    cases h
    rfl

/-- All that a symbol derives. -/
def prospectOf (symbol : GrammarSymbol) : Prospect := phrases (Derives symbol) Construct.nesting

/-- A parse consumes a word up to the end of the input, or fails for a reason. -/
theorem parseTokens_cases (tokens : List Token) (symbol : GrammarSymbol) :
    (∃ c ts s, parseTokens tokens symbol = .ok c ∧
      Parser.Passes (.ofTokens tokens) (prospectOf symbol) ts [] s 1 ∧ front s.rest = none) ∨
    ∃ e, parseTokens tokens symbol = .error e ∧
      Parser.Failure (.ofTokens tokens) (prospectOf symbol) e := by
  have hRun := (Parser.foresees_construct symbol).2 (.ofTokens tokens)
  rw [parseTokens, Parser.result, Parser.whole]
  cases hConstruct : Parser.construct symbol (.ofTokens tokens) with
  | error e s =>
    rw [hConstruct] at hRun
    refine .inr ⟨e, ?_, hRun⟩
    rw [EStateM.run, Parser.bind_of_error hConstruct]
  | ok c s =>
    rw [hConstruct] at hRun
    rw [EStateM.run, Parser.bind_of_ok hConstruct]
    obtain ⟨s₁, hExpect, ⟨ts, hPasses⟩, hEnd⟩ | ⟨e, s₁, hExpect, hFailure⟩ := Parser.expectEnd_run hRun
    · rw [Parser.bind_of_ok hExpect]
      exact .inl ⟨c, ts, s₁, rfl, hPasses, hEnd⟩
    · rw [Parser.bind_of_error hExpect]
      exact .inr ⟨e, rfl, hFailure⟩

theorem parseTokens_failure {tokens : List Token} {symbol : GrammarSymbol} {e : ParseError}
    (h : parseTokens tokens symbol = .error e) :
    Parser.Failure (.ofTokens tokens) (prospectOf symbol) e := by
  obtain ⟨c, ts, s, hRun, -⟩ | ⟨e', hRun, hFailure⟩ := parseTokens_cases tokens symbol
  · rw [hRun] at h
    cases h
  · rw [hRun] at h
    cases h
    exact hFailure

end GraphQLSyntax
