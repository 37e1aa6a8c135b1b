import GraphQLSyntax.Proofs.Faults.SelectionSet
import GraphQLSyntax.Proofs.Parsing.Document

/-!
# Definitions and documents
-/

set_option autoImplicit false

namespace GraphQLSyntax.Parser

/-! ## Variable definitions -/

theorem phrases_default : phrases DefaultPhrase Value.nesting =
    sign .equals * phrases (ValuePhrase false) Value.nesting := by
  ext limit ts
  constructor
  · rintro ⟨_, ⟨hIs, hValue⟩, hNest⟩
    exact mem_tokenOf_mul.mpr ⟨_, _, rfl, hIs, _, hValue, hNest⟩
  · intro hts
    obtain ⟨equals, us, rfl, hIs, v, hValue, hNest⟩ := mem_tokenOf_mul.mp hts
    exact ⟨_, .mk hIs hValue, hNest⟩

theorem starts_default : Starts (phrases DefaultPhrase Value.nesting) (IsSign [.equals]) := by
  rw [phrases_default]
  exact starts_sign _ _

theorem completable_default : Completable (phrases DefaultPhrase Value.nesting) := by
  rw [phrases_default]
  exact (completable_sign _).mul (completable_value _ _)

theorem foresees_optionalDefault :
    Foresees maxDepth optionalDefault (1 + phrases DefaultPhrase Value.nesting) [.equals] := by
  intro s K hRoom hCompletable hK
  rw [optionalDefault]
  refine Foretold.ifNext (looks_peekIs .equals) nextIs_iff_isSign (.refl s hCompletable)
    completable_default starts_default (isClosing_of_isSign rfl) hK ?_ ?_
  · rintro s₁ k hFront ⟨p, hp, rfl⟩ h₁
    obtain ⟨t, us, hRest, ht, -⟩ := cons_of_front hFront
    rw [List.mem_singleton.mp hp] at ht
    have h₁' := h₁.congr (R := sign .equals * (phrases (ValuePhrase false) Value.nesting * K))
      (by rw [phrases_default, mul_assoc])
    refine Foretold.next h₁' hRest ht (by rw [ht]; trivial) (by rw [ht]; rfl) ?_
    intro s₂ h₂
    exact ((foresees_value .variableDefault).call h₂ hRoom (avoids_nil _)).map _
  · intro s₁ h₁
    exact h₁

theorem phrases_variableDefinition : phrases VariableDefinitionPhrase VariableDefinition.nesting =
    phrases VariablePhrase (fun _ => 0) * (sign .colon * (phrases TypePhrase TypeReference.nesting *
      (1 + phrases DefaultPhrase Value.nesting))) := by
  rw [← phrases_optional]
  ext limit ts
  constructor
  · rintro ⟨_, ⟨hVariable, hIs, hType, hDefault⟩, hNest⟩
    obtain ⟨hTypeNest, hDefaultNest⟩ := max_le_limit.mp hNest
    exact mem_mul.mpr ⟨_, ⟨_, hVariable, zero_le⟩, _, mem_tokenOf_mul.mpr ⟨_, _, rfl, hIs,
      mem_mul.mpr ⟨_, ⟨_, hType, hTypeNest⟩, _, ⟨_, hDefault, hDefaultNest⟩, rfl⟩⟩, rfl⟩
  · intro hts
    obtain ⟨us, ⟨v, hVariable, -⟩, _, hus, rfl⟩ := mem_mul.mp hts
    obtain ⟨colon, _, rfl, hIs, hvs⟩ := mem_tokenOf_mul.mp hus
    obtain ⟨ws, ⟨t, hType, hTypeNest⟩, xs, ⟨d, hDefault, hDefaultNest⟩, rfl⟩ := mem_mul.mp hvs
    exact ⟨_, .mk hVariable hIs hType hDefault, max_le_limit.mpr ⟨hTypeNest, hDefaultNest⟩⟩

theorem starts_variableDefinition :
    Starts (phrases VariableDefinitionPhrase VariableDefinition.nesting) (IsSign [.dollar]) := by
  rw [phrases_variableDefinition, phrases_variable, mul_assoc]
  exact starts_sign _ _

theorem completable_variableDefinition :
    Completable (phrases VariableDefinitionPhrase VariableDefinition.nesting) := by
  rw [phrases_variableDefinition]
  exact completable_variable.mul
    ((completable_sign _).mul (completable_type.mul (completable_optional _)))

theorem foresees_variableDefinition : Foresees maxDepth variableDefinition
    (phrases VariableDefinitionPhrase VariableDefinition.nesting) [.bang, .equals] := by
  intro s K hRoom hCompletable hK
  have h := Reached.refl s hCompletable
  have hStop : Avoids ((1 + phrases DefaultPhrase Value.nesting) * K) (IsSign [.bang]) :=
    ((starts_default.mul K).avoids (IsSign.not_of_disjoint (by decide))).optional
      (hK.mono (IsSign.mono (by decide)))
  rw [phrases_variableDefinition, mul_assoc, mul_assoc, mul_assoc] at *
  rw [variableDefinition]
  refine foresees_reference.bind h hRoom (avoids_nil _) ?_
  intro v s₁ h₁
  refine Foretold.expect rfl h₁ ?_
  intro colon s₂ h₂
  refine foresees_typeReference.bind h₂ hRoom hStop ?_
  intro t s₃ h₃
  refine foresees_optionalDefault.bind h₃ hRoom (hK.mono (IsSign.mono (by decide))) ?_
  intro d s₄ h₄
  exact .spanFrom h₄

theorem phrases_variableDefinitions :
    phrases VariableDefinitionsPhrase (deepest VariableDefinition.nesting) = sign .parenOpen *
      (phrases VariableDefinitionPhrase VariableDefinition.nesting *
        (phrases (Repeated VariableDefinitionPhrase) (deepest VariableDefinition.nesting) *
          sign .parenClose)) := by
  refine Eq.trans ?_ (phrases_withinSome (e := .variableDefinitions))
  refine phrases_congr ?_
  intro ts n
  constructor
  · rintro ⟨ds, ⟨hSome, hPhrase⟩, hNest⟩
    exact ⟨(ds, spanOver ts), ⟨hSome, hPhrase, rfl⟩, hNest⟩
  · rintro ⟨r, ⟨hSome, hPhrase, -⟩, hNest⟩
    exact ⟨r.1, .mk hSome hPhrase, hNest⟩

theorem starts_variableDefinitions :
    Starts (phrases VariableDefinitionsPhrase (deepest VariableDefinition.nesting))
      (IsSign [.parenOpen]) := by
  rw [phrases_variableDefinitions]
  exact starts_sign _ _

theorem completable_variableDefinitions :
    Completable (phrases VariableDefinitionsPhrase (deepest VariableDefinition.nesting)) := by
  rw [phrases_variableDefinitions]
  exact (completable_sign _).mul
    (completable_variableDefinition.mul (completable_repeated.mul (completable_sign _)))

theorem foresees_variableDefinitions : Foresees maxDepth variableDefinitions
    (phrases VariableDefinitionsPhrase (deepest VariableDefinition.nesting)) [] := by
  have hEnclosed : Foresees maxDepth (enclosedSome .variableDefinitions variableDefinition) _ [] :=
    foresees_enclosedSome foresees_variableDefinition completable_variableDefinition
      starts_variableDefinition (isClosing_of_isSign rfl) (fun ⟨_, _, h⟩ => nomatch h) phrases_repeated
      (IsSign.not_of_disjoint (by decide)) (by decide)
  rw [phrases_variableDefinitions]
  exact hEnclosed.map fun r => r.1

theorem foresees_optionalVariableDefinitions : Foresees maxDepth optionalVariableDefinitions
    (1 + phrases VariableDefinitionsPhrase (deepest VariableDefinition.nesting)) [.parenOpen] :=
  foresees_variableDefinitions.optional completable_variableDefinitions starts_variableDefinitions rfl

/-! ## Operations -/

theorem foretold_optionalName {s₀ s : ParserState} {P K : Prospect} {os : List Opener}
    (h : Reached s₀ P os s ((1 + tokenOf isNameKind) * K)) (hK : Avoids K isNameKind) :
    Foretold s₀ P os K (optionalName s) := by
  have hStarts : Starts (tokenOf isNameKind) isNameKind := starts_tokenOf fun h => nomatch h
  rw [optionalName]
  refine Foretold.peek looks_peekKind h ?_
  intro s₁ h₁ hSame
  rw [← hSame]
  split
  · rename_i hName
    cases hNext : nextKind s₁.rest with
    | none =>
      rw [hNext] at hName
      cases hName
    | some k =>
      rw [hNext, Option.bind_some] at hName
      have hFront : front s₁.rest = some k := by
        rw [front, hNext]
        cases k with
        | endOfInput => cases hName
        | _ => rfl
      have h₂ := h₁.take completable_name hFront fun hMem hFront' => hK hMem k hFront' hName
      exact (foresees_name.call h₂ s₀.room_le (avoids_nil _)).map _
  · rename_i hName
    refine h₁.skip hStarts (fun _ => isClosing_of_isNameKind) ?_
    intro k hFront hk
    rw [nextKind_of_front hFront, Option.bind_some] at hName
    exact hName hk

def isOperationKeyword (k : TokenKind) : Prop := ∃ kind : OperationKind, k = .name kind.text

theorem phrases_operationType : phrases OperationTypePhrase (fun _ => 0) = tokenOf isOperationKeyword := by
  refine phrases_token fun ts => ⟨?_, ?_⟩
  · rintro ⟨_, ⟨hIs⟩⟩
    exact ⟨_, rfl, _, hIs⟩
  · rintro ⟨t, rfl, kind, hIs⟩
    exact ⟨kind, .mk hIs⟩

theorem nameText_query : NameText ("query" : String).toList :=
  @NameText.mk 'q' ['u', 'e', 'r', 'y'] rfl (List.all_eq_true.mp rfl)

theorem completable_operationType : Completable (tokenOf isOperationKeyword) := by
  have hQuery : isOperationKeyword (.name "query") := ⟨.query, rfl⟩
  exact completable_tokenOf hQuery ⟨nameText_query, by decide, by decide, by decide⟩

theorem starts_operationType (K : Prospect) : Starts (tokenOf isOperationKeyword * K) isOperationKeyword :=
  (starts_tokenOf fun ⟨_, h⟩ => nomatch h).mul K

theorem foresees_operationType : Foresees maxDepth operationType (tokenOf isOperationKeyword) [] := by
  intro s K hRoom hCompletable hK
  rw [operationType]
  refine Foretold.peek looks_peekKind (.refl s hCompletable) ?_
  intro s₁ h₁ hSame
  rw [← hSame]
  have hOther : (∀ word, nextKind s₁.rest = some (.name word) → OperationKind.ofKeyword? word = none) →
      Foretold s (tokenOf isOperationKeyword * K) s.openers K
        (unexpected .operationType s₁ : EStateM.Result _ _ (OperationKind × Span)) := by
    intro hNone
    refine h₁.unexpected (blocked_of_starts (starts_operationType K) ?_ ?_) _
    · rintro k hFront ⟨kind, rfl⟩
      have hKeyword := hNone _ (nextKind_of_front hFront)
      rw [OperationKind.ofKeyword?_text] at hKeyword
      cases hKeyword
    · rintro k ⟨kind, rfl⟩
      rfl
  cases hNext : nextKind s₁.rest with
  | none => exact hOther fun word hName => by rw [hNext] at hName; cases hName
  | some k =>
    cases k with
    | name word =>
      cases hKeyword : OperationKind.ofKeyword? word with
      | some kind =>
        simp only [hKeyword]
        have hText : word = kind.text := OperationKind.ofKeyword?_eq_some_iff.mp hKeyword
        cases hRest : s₁.rest with
        | nil =>
          rw [hRest] at hNext
          cases hNext
        | cons t us =>
          rw [hRest, nextKind_cons, Option.some.injEq] at hNext
          exact Foretold.next h₁ hRest ⟨kind, by rw [hNext, hText]⟩ (by rw [hNext]; trivial)
            (by rw [hNext]; rfl) fun s₂ h₂ => h₂
      | none =>
        simp only [hKeyword]
        refine hOther fun word' hName => ?_
        rw [hNext] at hName
        cases hName
        exact hKeyword
    | _ => exact hOther fun word hName => by rw [hNext] at hName; cases hName

/-- What follows the keyword of an operation. -/
def afterKeyword : Prospect :=
  (1 + tokenOf isNameKind) *
    ((1 + phrases VariableDefinitionsPhrase (deepest VariableDefinition.nesting)) *
      ((1 + phrases DirectivesPhrase (deepest Directive.nesting)) *
        phrases SelectionSetPhrase SelectionSet.nesting))

theorem phrases_operation : phrases OperationPhrase OperationDefinition.nesting =
    phrases SelectionSetPhrase SelectionSet.nesting + tokenOf isOperationKeyword * afterKeyword := by
  have hName : phrases (Optional NamePhrase) (optionalNesting fun _ => 0) = 1 + tokenOf isNameKind := by
    rw [phrases_optional, phrases_name]
  rw [afterKeyword, ← phrases_optionalList rfl, ← phrases_optionalList rfl, ← phrases_operationType, ← hName]
  ext limit ts
  rw [mem_add]
  constructor
  · rintro ⟨_, hPhrase, hNest⟩
    cases hPhrase with
    | shorthand hSet => exact .inl ⟨_, hSet, (max_le_limit.mp hNest).2⟩
    | mk hKeyword hName hVariables hDirectives hSet =>
      obtain ⟨hInner, hSetNest⟩ := max_le_limit.mp hNest
      obtain ⟨hVariablesNest, hDirectivesNest⟩ := max_le_limit.mp hInner
      refine .inr (mem_mul.mpr ⟨_, ⟨_, hKeyword, zero_le⟩, _, mem_mul.mpr ⟨_, ⟨_, hName, ?_⟩, _,
        mem_mul.mpr ⟨_, ⟨_, hVariables, hVariablesNest⟩, _, mem_mul.mpr ⟨_, ⟨_, hDirectives,
          hDirectivesNest⟩, _, ⟨_, hSet, hSetNest⟩, rfl⟩, rfl⟩, rfl⟩, rfl⟩)
      cases hName <;> exact zero_le
  · rintro (⟨set, hSet, hNest⟩ | hts)
    · exact ⟨_, .shorthand hSet, max_le_limit.mpr ⟨zero_le, hNest⟩⟩
    · obtain ⟨us, ⟨kind, hKeyword, -⟩, _, hus, rfl⟩ := mem_mul.mp hts
      obtain ⟨vs, ⟨n, hName, -⟩, _, hvs, rfl⟩ := mem_mul.mp hus
      obtain ⟨ws, ⟨vds, hVariables, hVariablesNest⟩, _, hws, rfl⟩ := mem_mul.mp hvs
      obtain ⟨xs, ⟨ds, hDirectives, hDirectivesNest⟩, ys, ⟨set, hSet, hSetNest⟩, rfl⟩ := mem_mul.mp hws
      exact ⟨_, .mk hKeyword hName hVariables hDirectives hSet,
        max_le_limit.mpr ⟨max_le_limit.mpr ⟨hVariablesNest, hDirectivesNest⟩, hSetNest⟩⟩

theorem completable_afterKeyword : Completable afterKeyword :=
  (completable_optional _).mul ((completable_optional _).mul
    ((completable_optional _).mul completable_selectionSet))

theorem foretold_afterKeyword {s₀ s : ParserState} {P K : Prospect} {os : List Opener} {α : Type}
    {make : Option Name → List VariableDefinition → List Directive → SelectionSet → Span → α} {first : Span}
    (h : Reached s₀ P os s (afterKeyword * K)) : Foretold s₀ P os K ((do
      let name ← optionalName
      let variableDefinitions ← optionalVariableDefinitions
      let directives ← optionalDirectives
      let selectionSet ← selectionSet
      return make name variableDefinitions directives selectionSet (← spanFrom first) : Parser α) s) := by
  have hSet : Starts (phrases SelectionSetPhrase SelectionSet.nesting * K) (IsSign [.braceOpen]) :=
    starts_selectionSet.mul K
  have hDirectives : Starts ((1 + phrases DirectivesPhrase (deepest Directive.nesting)) *
      (phrases SelectionSetPhrase SelectionSet.nesting * K)) (IsSign [.atSign, .braceOpen]) :=
    (starts_directives.mono (IsSign.mono (by decide))).optional (hSet.mono (IsSign.mono (by decide)))
  have hVariables : Starts
      ((1 + phrases VariableDefinitionsPhrase (deepest VariableDefinition.nesting)) *
        ((1 + phrases DirectivesPhrase (deepest Directive.nesting)) *
          (phrases SelectionSetPhrase SelectionSet.nesting * K)))
      (IsSign [.parenOpen, .atSign, .braceOpen]) :=
    (starts_variableDefinitions.mono (IsSign.mono (by decide))).optional
      (hDirectives.mono (IsSign.mono (by decide)))
  rw [afterKeyword, mul_assoc, mul_assoc, mul_assoc] at h
  refine (foretold_optionalName h (hVariables.avoids ?_)).bind ?_
  · exact fun k hk hName => isNameKind.not_isSign k hName hk
  intro n s₁ h₁
  refine foresees_optionalVariableDefinitions.bind h₁ s₀.room_le
    (hDirectives.avoids (IsSign.not_of_disjoint (by decide))) ?_
  intro vds s₂ h₂
  refine foresees_optionalDirectives.bind h₂ s₀.room_le
    (hSet.avoids (IsSign.not_of_disjoint (by decide))) ?_
  intro ds s₃ h₃
  refine foresees_selectionSet.bind h₃ s₀.room_le (avoids_nil _) ?_
  intro set s₄ h₄
  exact .spanFrom h₄

/-- There is as much room for an operation with a keyword as for one without. -/
theorem Reached.keyword {s₀ s : ParserState} {P K : Prospect} {os : List Opener}
    (h : Reached s₀ P os s (phrases OperationPhrase OperationDefinition.nesting * K))
    (hNext : ∀ k, front s.rest = some k → ¬ IsSign [.braceOpen] k) :
    Reached s₀ P os s (tokenOf isOperationKeyword * (afterKeyword * K)) := by
  have hCompletable : Completable K := h.completable.right
  rw [phrases_operation, add_mul] at h
  rw [← mul_assoc]
  refine h.narrow ((completable_operationType.mul completable_afterKeyword).mul hCompletable)
    (fun vs hvs => .inr hvs) ?_ ?_
  · rintro limit vs hvs (hMem | hMem)
    · obtain ⟨k, hFront, hk⟩ := starts_selectionSet.mul K hMem
      exact absurd hk (hNext k (hvs.of_front hFront (isClosing_of_isSign rfl k hk)))
    · exact hMem
  · intro _ limit hZero
    have hNone : (phrases SelectionSetPhrase SelectionSet.nesting * K) limit = 0 := by
      ext vs
      refine ⟨fun hvs => ?_, fun hvs => absurd hvs (Language.notMem_zero vs)⟩
      have hMem : ⟨.name "query", .emptyAt .origin⟩ :: vs ∈
          (tokenOf isOperationKeyword * afterKeyword * K) limit := by
        rw [mul_assoc]
        refine mem_tokenOf_mul.mpr ⟨_, vs, rfl, ⟨.query, rfl⟩, ?_⟩
        rw [afterKeyword, mul_assoc, mul_assoc, mul_assoc]
        exact mem_mul.mpr ⟨[], .inl rfl, _, mem_mul.mpr ⟨[], .inl rfl, _, mem_mul.mpr
          ⟨[], .inl rfl, vs, hvs, rfl⟩, rfl⟩, rfl⟩
      rw [hZero] at hMem
      exact absurd hMem (Language.notMem_zero _)
    change (phrases SelectionSetPhrase SelectionSet.nesting * K) limit + _ = 0
    rw [hNone, hZero, add_zero]

theorem starts_operation : Starts (phrases OperationPhrase OperationDefinition.nesting)
    fun k => operationAhead (some k) = true := by
  refine starts_phrases ?_ fun h => nomatch h
  intro ts d hPhrase
  cases ts with
  | nil =>
    have hAhead : operationAhead (nextKind ([] ++ [])) = true := operation_ahead hPhrase
    cases hAhead
  | cons t us =>
    have hAhead : operationAhead (nextKind (t :: us ++ [])) = true := operation_ahead hPhrase
    exact ⟨t, us, rfl, hAhead⟩

theorem completable_operation : Completable (phrases OperationPhrase OperationDefinition.nesting) := by
  rw [phrases_operation]
  exact completable_selectionSet.add_left _

theorem foresees_operationDefinition : Foresees maxDepth operationDefinition
    (phrases OperationPhrase OperationDefinition.nesting) [] := by
  intro s K hRoom hCompletable hK
  rw [operationDefinition]
  refine Foretold.peek (looks_peekIs .braceOpen) (.refl s hCompletable) ?_
  intro s₁ h₁ hSame
  rw [← hSame]
  split
  · rename_i hBrace
    have hFront := nextIs_iff_front.mp hBrace
    refine (foresees_selectionSet.call (K := K) (h₁.branch completable_selectionSet starts_operation hFront
      ?_ ?_) hRoom (avoids_nil _)).bind fun _ _ h₂ => h₂
    · intro limit ts hts
      rw [phrases_operation]
      exact .inl hts
    · intro limit ts hts hNext
      rw [phrases_operation] at hts
      obtain hSet | hKeyword := hts
      · exact hSet
      · obtain ⟨k, hFront', kind, rfl⟩ := starts_operationType _ hKeyword
        rw [hNext] at hFront'
        cases hFront'
  · rename_i hBrace
    refine foresees_operationType.bind (h₁.keyword ?_) hRoom (avoids_nil _) ?_
    · intro k hFront hk
      exact hBrace ((nextIs_iff_isSign _).mpr ⟨k, hFront, hk⟩)
    · rintro ⟨kind, first⟩ s₂ h₂
      exact foretold_afterKeyword h₂

/-! ## Fragments -/

theorem phrases_fragment : phrases FragmentPhrase FragmentDefinition.nesting =
    tokenOf (· = .name "fragment") * (tokenOf isFragmentNameKind *
      (phrases TypeConditionPhrase (fun _ => 0) *
        ((1 + phrases DirectivesPhrase (deepest Directive.nesting)) *
          phrases SelectionSetPhrase SelectionSet.nesting))) := by
  rw [← phrases_optionalList rfl, ← phrases_fragmentName]
  ext limit ts
  constructor
  · rintro ⟨_, ⟨hIs, hName, hType, hDirectives, hSet⟩, hNest⟩
    obtain ⟨hDirectivesNest, hSetNest⟩ := max_le_limit.mp hNest
    exact mem_tokenOf_mul.mpr ⟨_, _, rfl, hIs, mem_mul.mpr ⟨_, ⟨_, hName, zero_le⟩, _,
      mem_mul.mpr ⟨_, ⟨_, hType, zero_le⟩, _, mem_mul.mpr ⟨_, ⟨_, hDirectives, hDirectivesNest⟩, _,
        ⟨_, hSet, hSetNest⟩, rfl⟩, rfl⟩, rfl⟩⟩
  · intro hts
    obtain ⟨keyword, _, rfl, hIs, hus⟩ := mem_tokenOf_mul.mp hts
    obtain ⟨vs, ⟨n, hName, -⟩, _, hvs, rfl⟩ := mem_mul.mp hus
    obtain ⟨ws, ⟨t, hType, -⟩, _, hws, rfl⟩ := mem_mul.mp hvs
    obtain ⟨xs, ⟨ds, hDirectives, hDirectivesNest⟩, ys, ⟨set, hSet, hSetNest⟩, rfl⟩ := mem_mul.mp hws
    exact ⟨_, .mk hIs hName hType hDirectives hSet, max_le_limit.mpr ⟨hDirectivesNest, hSetNest⟩⟩

theorem starts_fragment :
    Starts (phrases FragmentPhrase FragmentDefinition.nesting) (· = .name "fragment") := by
  rw [phrases_fragment]
  exact (starts_tokenOf fun h => nomatch h).mul _

theorem nameText_fragment : NameText ("fragment" : String).toList :=
  @NameText.mk 'f' ['r', 'a', 'g', 'm', 'e', 'n', 't'] rfl (List.all_eq_true.mp rfl)

theorem completable_fragment : Completable (phrases FragmentPhrase FragmentDefinition.nesting) := by
  rw [phrases_fragment]
  have hKeyword : Completable (tokenOf (· = .name "fragment")) :=
    completable_tokenOf rfl ⟨nameText_fragment, by decide, by decide, by decide⟩
  exact hKeyword.mul (completable_fragmentName.mul (completable_typeCondition.mul
    ((completable_optional _).mul completable_selectionSet)))

theorem foresees_fragmentDefinition : Foresees maxDepth fragmentDefinition
    (phrases FragmentPhrase FragmentDefinition.nesting) [] := by
  intro s K hRoom hCompletable hK
  have h := Reached.refl s hCompletable
  have hStop : Avoids (phrases SelectionSetPhrase SelectionSet.nesting * K)
      (IsSign [.atSign, .parenOpen]) :=
    (starts_selectionSet.mul K).avoids (IsSign.not_of_disjoint (by decide))
  rw [phrases_fragment, mul_assoc, mul_assoc, mul_assoc, mul_assoc] at *
  rw [fragmentDefinition]
  refine Foretold.expectWord h ?_
  intro keyword s₁ h₁
  refine foresees_fragmentName.bind h₁ hRoom (avoids_nil _) ?_
  intro n s₂ h₂
  refine foresees_typeCondition.bind h₂ hRoom (avoids_nil _) ?_
  intro t s₃ h₃
  refine foresees_optionalDirectives.bind h₃ hRoom hStop ?_
  intro ds s₄ h₄
  refine foresees_selectionSet.bind h₄ hRoom hK ?_
  intro set s₅ h₅
  exact .spanFrom h₅

end GraphQLSyntax.Parser
