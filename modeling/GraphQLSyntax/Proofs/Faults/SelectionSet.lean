import GraphQLSyntax.Proofs.Faults.Selection
import GraphQLSyntax.Proofs.Parsing.SelectionSet

/-!
# Fields, inline fragments and selection sets

After three dots a spread and an inline fragment are both in prospect. The word before a type condition
decides for an inline fragment only if a name follows it.
-/

set_option autoImplicit false

namespace GraphQLSyntax.Parser

variable {room : Nat}

/-! ## Fields -/

theorem completable_responseAlias : Completable (sign .colon * tokenOf isNameKind) :=
  (completable_sign _).mul completable_name

theorem foresees_fieldName : Foresees maxDepth fieldName
    (tokenOf isNameKind * (1 + sign .colon * tokenOf isNameKind)) [.colon] := by
  intro s K hRoom hCompletable hK
  have h := Reached.refl s hCompletable
  rw [mul_assoc] at *
  rw [fieldName]
  refine foresees_name.bind h hRoom (avoids_nil _) ?_
  intro n s₁ h₁
  refine Foretold.ifNext (looks_peekIs .colon) nextIs_iff_isSign h₁ completable_responseAlias
    (starts_sign _ _) (isClosing_of_isSign rfl) hK ?_ ?_
  · intro s₂ _ _ _ h₂
    rw [mul_assoc] at h₂
    refine (foretold_finishAlias n h₂).bind ?_
    intro a s₃ h₃
    exact (foresees_name.call h₃ hRoom (avoids_nil _)).map _
  · intro s₂ h₂
    exact h₂

/-- Up to its selection set. -/
theorem foresees_fieldHead : Foresees maxDepth fieldHead
    (tokenOf isNameKind * (1 + sign .colon * tokenOf isNameKind) *
      ((1 + phrases ArgumentsPhrase (deepest Argument.nesting)) *
        (1 + phrases DirectivesPhrase (deepest Directive.nesting)))) [.colon, .parenOpen, .atSign] := by
  intro s K hRoom hCompletable hK
  have h := Reached.refl s hCompletable
  have hDirectives : ∀ {ps : List Punctuator}, (∀ p ∈ [.atSign], p ∉ ps) →
      (∀ p ∈ ps, p ∈ [.colon, .parenOpen, .atSign]) →
      Avoids ((1 + phrases DirectivesPhrase (deepest Directive.nesting)) * K) (IsSign ps) :=
    fun hDisjoint hSub => avoids_optionalDirectives hDisjoint (hK.mono (IsSign.mono hSub))
  have hArguments : Avoids ((1 + phrases ArgumentsPhrase (deepest Argument.nesting)) *
      ((1 + phrases DirectivesPhrase (deepest Directive.nesting)) * K)) (IsSign [.colon]) :=
    ((starts_arguments.mul _).avoids (IsSign.not_of_disjoint (by decide))).optional
      (hDirectives (by decide) (by decide))
  rw [mul_assoc (tokenOf isNameKind * _), mul_assoc (1 + phrases ArgumentsPhrase _)] at *
  rw [fieldHead]
  refine foresees_fieldName.bind h hRoom hArguments ?_
  rintro ⟨a, n⟩ s₁ h₁
  refine (foresees_optionalArguments rfl rfl).bind h₁ hRoom (hDirectives (by decide) (by decide)) ?_
  intro as s₂ h₂
  refine foresees_optionalDirectives.bind h₂ hRoom (hK.mono (IsSign.mono (by decide))) ?_
  intro ds s₃ h₃
  exact .spanFrom h₃

theorem optionalNesting_selectionSet (set : Option SelectionSet) :
    SelectionSet.optionalNesting set = optionalNesting SelectionSet.nesting set := by
  cases set <;> rfl

theorem phrases_field (sub : Production SelectionSet) : phrases (FieldPhrase sub) Field.nesting =
    tokenOf isNameKind * (1 + sign .colon * tokenOf isNameKind) *
      ((1 + phrases ArgumentsPhrase (deepest Argument.nesting)) *
        (1 + phrases DirectivesPhrase (deepest Directive.nesting))) *
      (1 + phrases sub SelectionSet.nesting) := by
  have hParts : phrases (FieldPhrase sub) Field.nesting =
      phrases (Optional AliasPhrase) (optionalNesting fun _ => 0) * (phrases NamePhrase (fun _ => 0) *
        (phrases (OptionalList ArgumentsPhrase) (deepest Argument.nesting) *
          (phrases (OptionalList DirectivesPhrase) (deepest Directive.nesting) *
            phrases (Optional sub) (optionalNesting SelectionSet.nesting)))) := by
    ext limit ts
    constructor
    · rintro ⟨_, ⟨hAlias, hName, hArguments, hDirectives, hSet⟩, hNest⟩
      obtain ⟨hInner, hSetNest⟩ := max_le_limit.mp hNest
      obtain ⟨hArgumentsNest, hDirectivesNest⟩ := max_le_limit.mp hInner
      rw [optionalNesting_selectionSet] at hSetNest
      refine mem_mul.mpr ⟨_, ⟨_, hAlias, ?_⟩, _, mem_mul.mpr ⟨_, ⟨_, hName, zero_le⟩, _, mem_mul.mpr
        ⟨_, ⟨_, hArguments, hArgumentsNest⟩, _, mem_mul.mpr ⟨_, ⟨_, hDirectives, hDirectivesNest⟩, _,
          ⟨_, hSet, hSetNest⟩, rfl⟩, rfl⟩, rfl⟩, rfl⟩
      cases hAlias <;> exact zero_le
    · intro hts
      obtain ⟨us, ⟨a, hAlias, -⟩, _, hus, rfl⟩ := mem_mul.mp hts
      obtain ⟨vs, ⟨n, hName, -⟩, _, hvs, rfl⟩ := mem_mul.mp hus
      obtain ⟨ws, ⟨as, hArguments, hArgumentsNest⟩, _, hws, rfl⟩ := mem_mul.mp hvs
      obtain ⟨xs, ⟨ds, hDirectives, hDirectivesNest⟩, ys, ⟨set, hSet, hSetNest⟩, rfl⟩ := mem_mul.mp hws
      rw [← optionalNesting_selectionSet] at hSetNest
      exact ⟨_, .mk hAlias hName hArguments hDirectives hSet,
        max_le_limit.mpr ⟨max_le_limit.mpr ⟨hArgumentsNest, hDirectivesNest⟩, hSetNest⟩⟩
  rw [hParts, phrases_optional, phrases_alias, phrases_name, phrases_optionalList rfl,
    phrases_optionalList rfl, phrases_optional]
  simp only [add_mul, mul_add, one_mul, mul_one, mul_assoc]

theorem starts_field (sub : Production SelectionSet) :
    Starts (phrases (FieldPhrase sub) Field.nesting) isNameKind := by
  rw [phrases_field, mul_assoc, mul_assoc]
  exact starts_name _

theorem completable_field (sub : Production SelectionSet) :
    Completable (phrases (FieldPhrase sub) Field.nesting) := by
  rw [phrases_field]
  exact ((completable_name.mul (completable_optional _)).mul
    ((completable_optional _).mul (completable_optional _))).mul (completable_optional _)

/-! ## Selections -/

section

variable {sub : Production SelectionSet}

/-- What follows the dots of an inline fragment. -/
theorem phrases_inlineFragment : phrases (InlineFragmentPhrase sub) InlineFragment.nesting =
    sign .ellipsis * ((1 + phrases TypeConditionPhrase (fun _ => 0)) *
      ((1 + phrases DirectivesPhrase (deepest Directive.nesting)) * phrases sub SelectionSet.nesting)) := by
  have hType : phrases (Optional TypeConditionPhrase) (optionalNesting fun _ => 0) =
      1 + phrases TypeConditionPhrase (fun _ => 0) := phrases_optional
  rw [← phrases_optionalList rfl, ← hType]
  ext limit ts
  constructor
  · rintro ⟨_, ⟨hIs, hType, hDirectives, hSet⟩, hNest⟩
    obtain ⟨hDirectivesNest, hSetNest⟩ := max_le_limit.mp hNest
    refine mem_tokenOf_mul.mpr ⟨_, _, rfl, hIs, mem_mul.mpr ⟨_, ⟨_, hType, ?_⟩, _, mem_mul.mpr
      ⟨_, ⟨_, hDirectives, hDirectivesNest⟩, _, ⟨_, hSet, hSetNest⟩, rfl⟩, rfl⟩⟩
    cases hType <;> exact zero_le
  · intro hts
    obtain ⟨dots, us, rfl, hIs, hus⟩ := mem_tokenOf_mul.mp hts
    obtain ⟨vs, ⟨t, hType, -⟩, _, hRest, rfl⟩ := mem_mul.mp hus
    obtain ⟨ws, ⟨ds, hDirectives, hDirectivesNest⟩, xs, ⟨set, hSet, hSetNest⟩, rfl⟩ := mem_mul.mp hRest
    exact ⟨_, .mk hIs hType hDirectives hSet, max_le_limit.mpr ⟨hDirectivesNest, hSetNest⟩⟩

theorem phrases_selection : phrases (SelectionPhrase sub) Selection.nesting =
    phrases (FieldPhrase sub) Field.nesting + sign .ellipsis *
      (tokenOf isFragmentNameKind * (1 + phrases DirectivesPhrase (deepest Directive.nesting)) +
        (1 + phrases TypeConditionPhrase (fun _ => 0)) *
          ((1 + phrases DirectivesPhrase (deepest Directive.nesting)) *
            phrases sub SelectionSet.nesting)) := by
  rw [mul_add, ← phrases_fragmentSpread, ← phrases_inlineFragment]
  ext limit ts
  constructor
  · rintro ⟨_, hPhrase, hNest⟩
    cases hPhrase with
    | field hPhrase => exact .inl ⟨_, hPhrase, hNest⟩
    | fragmentSpread hPhrase => exact .inr (.inl ⟨_, hPhrase, hNest⟩)
    | inlineFragment hPhrase => exact .inr (.inr ⟨_, hPhrase, hNest⟩)
  · rintro (⟨f, hPhrase, hNest⟩ | ⟨f, hPhrase, hNest⟩ | ⟨f, hPhrase, hNest⟩)
    · exact ⟨_, .field hPhrase, hNest⟩
    · exact ⟨_, .fragmentSpread hPhrase, hNest⟩
    · exact ⟨_, .inlineFragment hPhrase, hNest⟩

/-- The kinds of the tokens that a selection starts with. -/
def isSelectionKind (k : TokenKind) : Prop := isNameKind k ∨ k = .punctuator .ellipsis

theorem isClosing_of_isSelectionKind (k : TokenKind) (hk : isSelectionKind k) : k.isClosing = false := by
  obtain hName | rfl := hk
  · exact isClosing_of_isNameKind hName
  · rfl

theorem starts_selection : Starts (phrases (SelectionPhrase sub) Selection.nesting) isSelectionKind := by
  rw [phrases_selection]
  refine ((starts_field sub).mono fun k => .inl).add ?_
  refine ((starts_tokenOf ?_).mul _).mono fun k => .inr
  exact fun h => nomatch h

theorem completable_selection : Completable (phrases (SelectionPhrase sub) Selection.nesting) := by
  rw [phrases_selection]
  exact (completable_field sub).add_left _

/-- Any room is enough for a field without anything. -/
theorem field_flat (limit : ℕ∞) : ∃ ts, ts ∈ phrases (FieldPhrase sub) Field.nesting limit := by
  obtain ⟨ts, ⟨n, hName, -⟩, -⟩ := phrases_name ▸ completable_name
  exact ⟨_, _, .mk .absent hName .absent .absent .absent, zero_le⟩

end

theorem phrases_selectionSet : phrases SelectionSetPhrase SelectionSet.inside = sign .braceOpen *
    (phrases (SelectionPhrase SelectionSetPhrase) Selection.nesting *
      (phrases (Repeated (SelectionPhrase SelectionSetPhrase)) (deepest Selection.nesting) *
        sign .braceClose)) := by
  refine Eq.trans ?_ (phrases_withinSome (e := .selectionSet))
  refine phrases_congr ?_
  intro ts n
  constructor
  · rintro ⟨_, ⟨hSome, hPhrase⟩, hNest⟩
    exact ⟨(_, spanOver ts), ⟨hSome, hPhrase, rfl⟩, by rw [← Selection.deepestOf_eq]; exact hNest⟩
  · rintro ⟨r, ⟨hSome, hPhrase, -⟩, hNest⟩
    exact ⟨_, .mk hSome hPhrase, by rw [← hNest, ← Selection.deepestOf_eq]; rfl⟩

theorem starts_selectionSet :
    Starts (phrases SelectionSetPhrase SelectionSet.nesting) (IsSign [.braceOpen]) := by
  have hInside : Starts (phrases SelectionSetPhrase SelectionSet.inside) (IsSign [.braceOpen]) := by
    rw [phrases_selectionSet]
    exact starts_sign _ _
  exact hInside.renest

theorem completable_selectionSet : Completable (phrases SelectionSetPhrase SelectionSet.nesting) := by
  have hInside : Completable (phrases SelectionSetPhrase SelectionSet.inside) := by
    rw [phrases_selectionSet]
    exact (completable_sign _).mul
      (completable_selection.mul (completable_repeated.mul (completable_sign _)))
  exact hInside.renest

theorem completable_inlineFragment :
    Completable (phrases (InlineFragmentPhrase SelectionSetPhrase) InlineFragment.nesting) := by
  rw [phrases_inlineFragment]
  exact (completable_sign _).mul
    ((completable_optional _).mul ((completable_optional _).mul completable_selectionSet))

theorem Foretold.optionalTypeCondition {s₀ s : ParserState} {P Q : Prospect} {os : List Opener}
    (h : Reached s₀ P os s ((1 + phrases TypeConditionPhrase (fun _ => 0)) * Q)) (hOn : Avoids Q isOn) :
    Foretold s₀ P os Q (Parser.optionalTypeCondition s) := by
  rw [Parser.optionalTypeCondition]
  refine Foretold.ifNext (looks_peekIsWord "on") ?_ h completable_typeCondition ?_ ?_ hOn ?_ ?_
  · intro ts
    rw [nextIsWord_iff_front]
    refine ⟨fun hFront => ⟨_, hFront, rfl⟩, ?_⟩
    rintro ⟨k, hFront, rfl⟩
    exact hFront
  · rw [← mul_one (phrases TypeConditionPhrase _)]
    exact starts_typeCondition 1
  · rintro k rfl
    rfl
  · intro s₁ _ _ _ h₁
    exact (foresees_typeCondition.call h₁ s₀.room_le (avoids_nil _)).map _
  · intro s₁ h₁
    exact h₁

section

variable {selectionSet : Parser SelectionSet}
  (hSub : Foresees room selectionSet (phrases SelectionSetPhrase SelectionSet.nesting) [])

include hSub

theorem foresees_fieldOf : Foresees room (fieldOf selectionSet)
    (phrases (FieldPhrase SelectionSetPhrase) Field.nesting)
    [.colon, .parenOpen, .atSign, .braceOpen] := by
  intro s K hRoom hCompletable hK
  have h := Reached.refl s hCompletable
  have hStop : Avoids ((1 + phrases SelectionSetPhrase SelectionSet.nesting) * K)
      (IsSign [.colon, .parenOpen, .atSign]) :=
    ((starts_selectionSet.mul K).avoids (IsSign.not_of_disjoint (by decide))).optional
      (hK.mono (IsSign.mono (by decide)))
  rw [phrases_field, mul_assoc (tokenOf isNameKind * _ * _)] at *
  rw [fieldOf]
  refine foresees_fieldHead.bind h s.room_le hStop ?_
  intro head s₁ h₁
  refine Foretold.ifNext (looks_peekIs .braceOpen) nextIs_iff_isSign h₁ completable_selectionSet
    starts_selectionSet (isClosing_of_isSign rfl) (hK.mono (IsSign.mono (by decide))) ?_ ?_
  · intro s₂ _ _ _ h₂
    refine hSub.bind h₂ hRoom (avoids_nil _) ?_
    intro set s₃ h₃
    exact .spanFrom h₃
  · intro s₂ h₂
    exact h₂

/-- What follows the dots of an inline fragment. -/
theorem foresees_inlineTail (dots : Span) :
    Foresees room (do
      let typeCondition ← optionalTypeCondition
      let directives ← optionalDirectives
      let selectionSet ← selectionSet
      return InlineFragment.mk typeCondition directives selectionSet (← spanFrom dots))
      ((1 + phrases TypeConditionPhrase (fun _ => 0)) *
        ((1 + phrases DirectivesPhrase (deepest Directive.nesting)) *
          phrases SelectionSetPhrase SelectionSet.nesting)) [] := by
  intro s K hRoom hCompletable hK
  have h := Reached.refl s hCompletable
  rw [mul_assoc, mul_assoc] at *
  have hStop : Avoids (phrases SelectionSetPhrase SelectionSet.nesting * K)
      (IsSign [.atSign, .parenOpen]) :=
    (starts_selectionSet.mul K).avoids (IsSign.not_of_disjoint (by decide))
  have hOn : Avoids ((1 + phrases DirectivesPhrase (deepest Directive.nesting)) *
      (phrases SelectionSetPhrase SelectionSet.nesting * K)) isOn := by
    refine ((starts_directives.mul _).avoids ?_).optional ((starts_selectionSet.mul K).avoids ?_)
    all_goals
      rintro k ⟨p, -, rfl⟩ hk
      cases hk
  refine (Foretold.optionalTypeCondition h hOn).bind ?_
  intro t s₁ h₁
  refine foresees_optionalDirectives.bind h₁ s.room_le hStop ?_
  intro ds s₂ h₂
  refine hSub.bind h₂ hRoom hK ?_
  intro set s₃ h₃
  exact .spanFrom h₃

theorem foresees_inlineFragmentOf : Foresees room (inlineFragmentOf selectionSet)
    (phrases (InlineFragmentPhrase SelectionSetPhrase) InlineFragment.nesting) [] := by
  intro s K hRoom hCompletable hK
  have h := Reached.refl s hCompletable
  rw [phrases_inlineFragment, mul_assoc] at *
  rw [inlineFragmentOf]
  refine Foretold.expect rfl h ?_
  intro dots s₁ h₁
  exact (foresees_inlineTail hSub dots.span).call h₁ hRoom hK

end

/-! ## After three dots -/

theorem looks_startsInlineFragment : Looks startsInlineFragment inlineAhead := by
  refine looks_of_peeks startsInlineFragment_peeks ((keepsOpeners_peekKindNth 1).bind ?_)
  intro k
  split
  · exact keepsOpeners_pure true
  · exact keepsOpeners_pure true
  · split
    · exact (keepsOpeners_peekKindNth 2).bind fun _ => keepsOpeners_pure _
    · exact keepsOpeners_pure false
  · exact keepsOpeners_pure false

/-- The kinds of the tokens that what follows the dots of an inline fragment starts with. -/
def isInlineKind (k : TokenKind) : Prop := isOn k ∨ IsSign [.atSign, .braceOpen] k

theorem isInlineKind.not_isFragmentNameKind {k : TokenKind} (hk : isInlineKind k) :
    ¬ isFragmentNameKind k := by
  obtain rfl | ⟨p, -, rfl⟩ := hk
  · exact fun h => h.2 rfl
  · exact fun h => nomatch h.1

theorem isClosing_of_isInlineKind (k : TokenKind) (hk : isInlineKind k) : k.isClosing = false := by
  obtain rfl | ⟨p, hp, rfl⟩ := hk
  · rfl
  · revert p
    decide

theorem inlineAhead_cons {t : Token} {us : List Token} : inlineAhead (t :: us) = true ↔
    ∃ k, front us = some k ∧ (IsSign [.atSign, .braceOpen] k ∨
      isOn k ∧ ∃ k', front us.tail = some k' ∧ isNameKind k') := by
  cases us with
  | nil => simp [inlineAhead]
  | cons u us =>
    have hNames : ((us.head?.map Token.kind).bind TokenKind.nameText?).isSome = true ↔
        ∃ k', front us = some k' ∧ isNameKind k' := by
      cases us with
      | nil => simp
      | cons v vs =>
        constructor
        · intro hName
          have hv : isNameKind v.kind := hName
          refine ⟨v.kind, front_cons ?_ vs, hv⟩
          intro hEnd
          rw [hEnd] at hv
          cases hv
        · rintro ⟨k', hFront, hk'⟩
          have hNext := nextKind_of_front hFront
          rw [nextKind_cons, Option.some.injEq] at hNext
          subst hNext
          exact hk'
    rw [List.head?_eq_getElem?] at hNames
    by_cases hEnd : u.kind = .endOfInput
    · simp [inlineAhead, hEnd, front, Option.filter]
    · rw [front_cons hEnd, List.tail_cons]
      simp only [inlineAhead, List.getElem?_cons_succ, List.getElem?_cons_zero, Option.map_some,
        Option.some.injEq, exists_eq_left']
      cases hKind : u.kind with
      | punctuator p => cases p <;> simp [IsSign, isOn]
      | name word => simp [IsSign, isOn, hNames]
      | _ => simp [IsSign, isOn]

/-- What is in prospect after three dots. -/
def afterDots : Prospect :=
  tokenOf isFragmentNameKind * (1 + phrases DirectivesPhrase (deepest Directive.nesting)) +
    (1 + phrases TypeConditionPhrase (fun _ => 0)) *
      ((1 + phrases DirectivesPhrase (deepest Directive.nesting)) *
        phrases SelectionSetPhrase SelectionSet.nesting)

theorem starts_inlineTail (K : Prospect) : Starts ((1 + phrases TypeConditionPhrase (fun _ => 0)) *
    ((1 + phrases DirectivesPhrase (deepest Directive.nesting)) *
      phrases SelectionSetPhrase SelectionSet.nesting) * K) isInlineKind := by
  rw [mul_assoc, mul_assoc]
  refine Starts.optional ?_ (Starts.optional ?_ ?_)
  · rw [← mul_one (phrases TypeConditionPhrase _)]
    exact (starts_typeCondition 1).mono fun k => .inl
  · exact starts_directives.mono fun k hk => .inr (IsSign.mono (by decide) k hk)
  · exact (starts_selectionSet.mul K).mono fun k hk => .inr (IsSign.mono (by decide) k hk)

theorem fragmentName_on {s : ParserState} {on : Token} {us : List Token} (hRest : s.rest = on :: us)
    (hOn : on.IsWord "on") : ∃ s₁, fragmentName s = .error ⟨"fragment name cannot be `on`", on.span,
      .reservedName "on" .fragmentName, [.spec "https://spec.graphql.org/October2021/#FragmentName"]⟩ s₁ := by
  obtain ⟨s₁, hRun, hMoves, -⟩ := looks_peekIsWord "on" s
  have hIs : (nextKind s.rest == some (.name "on")) = true := by
    rw [hRest, nextKind_cons, hOn]
    exact beq_self_eq_true _
  obtain ⟨s₂, span, hRun₂, -, -, ⟨t, vs, hCons, rfl⟩ | ⟨hNil, -⟩⟩ := looks_peekSpan s₁
  · rw [← List.nil_append s₁.rest, ← hMoves.rest, hRest] at hCons
    obtain ⟨rfl, -⟩ := List.cons_eq_cons.mp hCons
    rw [fragmentName, bind_of_ok hRun, if_pos hIs, bind_of_ok hRun₂]
    exact ⟨s₂, rfl⟩
  · rw [← List.nil_append s₁.rest, ← hMoves.rest, hRest] at hNil
    cases hNil

section

variable {s₀ s : ParserState} {P K : Prospect} {os : List Opener}

theorem Reached.inlineTail {k : TokenKind} (h : Reached s₀ P os s (afterDots * K))
    (hFront : front s.rest = some k) (hk : isInlineKind k) :
    Reached s₀ P os s ((1 + phrases TypeConditionPhrase (fun _ => 0)) *
      ((1 + phrases DirectivesPhrase (deepest Directive.nesting)) *
        phrases SelectionSetPhrase SelectionSet.nesting) * K) := by
  have hCompletable : Completable K := h.completable.right
  rw [afterDots, add_mul] at h
  refine h.choose ?_ (fun hvs => .inr hvs) hFront ?_
  · exact ((completable_optional _).mul ((completable_optional _).mul completable_selectionSet)).mul
      hCompletable
  · rintro limit vs (hMem | hMem) hNext
    · rw [mul_assoc] at hMem
      obtain ⟨k', hFront', hk'⟩ := starts_fragmentName _ hMem
      rw [hNext] at hFront'
      cases hFront'
      exact absurd hk' hk.not_isFragmentNameKind
    · exact hMem

theorem Reached.spreadTail (h : Reached s₀ P os s (afterDots * K))
    (hNext : ∀ k, front s.rest = some k → ¬ isInlineKind k) :
    Reached s₀ P os s (tokenOf isFragmentNameKind *
      (1 + phrases DirectivesPhrase (deepest Directive.nesting)) * K) := by
  have hCompletable : Completable K := h.completable.right
  rw [afterDots, add_mul] at h
  refine h.narrow ?_ (fun vs hvs => .inl hvs) ?_ ?_
  · exact (completable_fragmentName.mul (completable_optional _)).mul hCompletable
  · rintro limit vs hvs (hMem | hMem)
    · exact hMem
    · obtain ⟨k, hFront, hk⟩ := starts_inlineTail K hMem
      exact absurd hk (hNext k (hvs.of_front hFront (isClosing_of_isInlineKind k hk)))
  · intro _ limit hZero
    -- a name alone is a spread, so that nothing at all is in prospect after it
    have hNone : K limit = 0 := by
      ext vs
      refine ⟨fun hvs => ?_, fun hvs => absurd hvs (Language.notMem_zero vs)⟩
      have hMem : [⟨.null, .emptyAt .origin⟩] ++ vs ∈ (tokenOf isFragmentNameKind *
          (1 + phrases DirectivesPhrase (deepest Directive.nesting)) * K) limit := by
        rw [mul_assoc]
        refine mem_tokenOf_mul.mpr ⟨_, vs, rfl, ⟨rfl, by simp⟩, ?_⟩
        exact mem_mul.mpr ⟨[], .inl rfl, vs, hvs, rfl⟩
      rw [hZero] at hMem
      exact absurd hMem (Language.notMem_zero _)
    rw [← add_mul]
    exact mul_eq_zero hNone

/-- The word before a type condition without a name after it is refused as the name of a fragment. -/
theorem Reached.reservedOn {dots on : Token} {us : List Token} {e : ParseError}
    (h : Reached s₀ P os s (sign .ellipsis * (afterDots * K))) (hRest : s.rest = dots :: on :: us)
    (hDots : dots.Is .ellipsis) (hOn : on.IsWord "on") (hName : ∀ k, front us = some k → ¬ isNameKind k)
    (hKind : e.kind = .reservedName "on" .fragmentName) (hSpan : e.span = on.span) : Failure s₀ P e := by
  refine h.failure ⟨[dots], on :: us, ?_⟩
  obtain ⟨ts, hts, hWell⟩ := h.completable
  obtain ⟨t, vs, rfl, -, hvs⟩ := mem_tokenOf_mul.mp hts
  refine ⟨hRest, ?_, ⟨vs, ?_, fun u hu => hWell u (.tail t hu)⟩, .inl ⟨on, ?_, by rw [hSpan]⟩, ?_⟩
  · intro u hu
    rw [List.mem_singleton.mp hu, hDots]
    trivial
  · exact mem_tokenOf_mul.mpr ⟨dots, vs, rfl, hDots, hvs⟩
  · rw [hRest]
    exact .tail _ (.head _)
  refine .reservedOn rfl hDots rfl hOn hKind hName ?_
  intro ws hws hMem
  obtain ⟨_, _, hCons, -, hMem⟩ := mem_tokenOf_mul.mp hMem
  cases hCons
  change on :: ws ∈ _ at hMem
  rw [afterDots, add_mul] at hMem
  obtain hMem | hMem := hMem
  · rw [mul_assoc] at hMem
    obtain ⟨_, _, hCons, hk, -⟩ := mem_tokenOf_mul.mp hMem
    cases hCons
    exact hk.2 hOn
  · rw [mul_assoc, mul_assoc, add_mul, one_mul] at hMem
    obtain hMem | hMem := hMem
    · have hSigns : Starts ((1 + phrases DirectivesPhrase (deepest Directive.nesting)) *
          (phrases SelectionSetPhrase SelectionSet.nesting * K)) (IsSign [.atSign, .braceOpen]) :=
        (starts_directives.mono (IsSign.mono (by decide))).optional
          ((starts_selectionSet.mul K).mono (IsSign.mono (by decide)))
      obtain ⟨k, hFront, p, -, rfl⟩ := hSigns hMem
      have hNext := nextKind_of_front hFront
      rw [nextKind_cons, hOn] at hNext
      cases hNext
    · rw [phrases_typeCondition, mul_assoc] at hMem
      obtain ⟨_, _, hCons, -, hMem⟩ := mem_tokenOf_mul.mp hMem
      cases hCons
      obtain ⟨k, hFront, hk⟩ := starts_namedType _ hMem
      exact hws k hFront hk.1

end

/-! ## Selection sets -/

section

variable {selectionSet : Parser SelectionSet}
  (hSub : Foresees room selectionSet (phrases SelectionSetPhrase SelectionSet.nesting) [])

include hSub

theorem foretold_afterDots {s₀ s : ParserState} {P K : Prospect} {os : List Opener}
    (h : Reached s₀ P os s (sign .ellipsis * (afterDots * K))) (hRoom : s₀.room ≤ room)
    (hNext : nextIs .ellipsis s.rest = true) (hK : Avoids K (IsSign [.atSign, .parenOpen])) :
    Foretold s₀ P os K ((do
      if ← startsInlineFragment then return .inlineFragment (← inlineFragmentOf selectionSet)
      else return .fragmentSpread (← fragmentSpread) : Parser Selection) s) := by
  refine Foretold.peek looks_startsInlineFragment h ?_
  intro s₁ h₁ hSame
  rw [← hSame] at hNext ⊢
  obtain ⟨dots, us, hRest, hDots⟩ : ∃ dots us, s₁.rest = dots :: us ∧ dots.Is .ellipsis := by
    obtain ⟨t, us, hRest, ht, -⟩ := cons_of_front (nextIs_iff_front.mp hNext)
    exact ⟨t, us, hRest, ht⟩
  obtain ⟨t, s₂, hRun, -, hMoves, hOpeners⟩ | ⟨hNotNext, -⟩ := expect_run .ellipsis s₁
  · have hRest₂ : s₁.rest = t :: s₂.rest := hMoves.rest
    rw [hRest] at hRest₂
    obtain ⟨rfl, rfl⟩ := List.cons_eq_cons.mp hRest₂
    have hPlain : dots.kind.isPlain = true := by
      rw [hDots]
      rfl
    have h₂ : Reached s₀ P os s₂ (afterDots * K) := h₁.token hDots hPlain hMoves hOpeners
    split
    · rename_i hInline
      rw [hRest, inlineAhead_cons] at hInline
      obtain ⟨k, hFront, hk⟩ := hInline
      have hInlineKind : isInlineKind k := by
        obtain hSign | ⟨hOn, -⟩ := hk
        · exact .inr hSign
        · exact .inl hOn
      refine Foretold.map (p := inlineFragmentOf selectionSet) ?_ _
      rw [inlineFragmentOf, bind_of_ok hRun]
      exact (foresees_inlineTail hSub dots.span).call (h₂.inlineTail hFront hInlineKind) hRoom
        (avoids_nil K)
    · rename_i hSpread
      rw [hRest, inlineAhead_cons] at hSpread
      refine Foretold.map (p := fragmentSpread) ?_ _
      rw [fragmentSpread, bind_of_ok hRun]
      by_cases hOn : front s₂.rest = some (.name "on")
      · obtain ⟨on, vs, hRest₂, hIsOn, -⟩ := cons_of_front hOn
        have hName : ∀ k, front vs = some k → ¬ isNameKind k := by
          intro k hFront hk
          refine hSpread ⟨_, hOn, .inr ⟨rfl, k, ?_, hk⟩⟩
          rwa [hRest₂]
        obtain ⟨s₃, hRun₃⟩ := fragmentName_on hRest₂ hIsOn
        rw [bind_of_error hRun₃]
        exact h₁.reservedOn (by rw [hRest, hRest₂]) hDots hIsOn hName rfl rfl
      · refine (foresees_spreadTail dots.span).call (h₂.spreadTail ?_) s₀.room_le hK
        rintro k hFront (rfl | hk)
        · exact hOn hFront
        · exact hSpread ⟨k, hFront, .inl hk⟩
  · rw [hNext] at hNotNext
    cases hNotNext

theorem foresees_selectionOf : Foresees room (selectionOf selectionSet)
    (phrases (SelectionPhrase SelectionSetPhrase) Selection.nesting)
    [.colon, .parenOpen, .atSign, .braceOpen] := by
  intro s K hRoom hCompletable hK
  have h := Reached.refl s hCompletable
  rw [selectionOf]
  refine Foretold.peek (looks_peekIs .ellipsis) h ?_
  intro s₁ h₁ hSame
  rw [← hSame]
  split
  · rename_i hDots
    have hFront := nextIs_iff_front.mp hDots
    have hAfter : Completable afterDots :=
      (completable_fragmentName.mul (completable_optional _)).add_left _
    have h₂ : Reached s (phrases (SelectionPhrase SelectionSetPhrase) Selection.nesting * K) s.openers s₁
        (sign .ellipsis * (afterDots * K)) := by
      rw [← mul_assoc]
      refine h₁.branch ((completable_sign _).mul hAfter) starts_selection hFront ?_ ?_
      · intro limit ts hts
        rw [phrases_selection]
        exact .inr hts
      · intro limit ts hts hNext
        rw [phrases_selection] at hts
        obtain hField | hts := hts
        · obtain ⟨k, hFront', hk⟩ := starts_field _ hField
          rw [hNext] at hFront'
          cases hFront'
          cases hk
        · exact hts
    exact foretold_afterDots hSub h₂ hRoom hDots (hK.mono (IsSign.mono (by decide)))
  · rename_i hDots
    refine ((foresees_fieldOf hSub).call (h₁.otherwise (S := (· = .punctuator .ellipsis)) .field ?_ ?_
      (completable_field _) (fun h => ⟨.field h, rfl⟩) ?_ fun _ => field_flat _) hRoom hK).map _
    · rintro k hFront rfl
      exact hDots (nextIs_iff_front.mpr hFront)
    · rintro k rfl
      rfl
    · intro ts selection hPhrase hFront
      have hStart : ∀ {dots : Token} {us : List Token}, dots.Is .ellipsis → ts ≠ dots :: us := by
        rintro dots us hIs rfl
        refine hFront _ (front_cons ?_ us) hIs
        rw [hIs]
        simp
      cases hPhrase with
      | field hPhrase => exact ⟨_, hPhrase, rfl⟩
      | fragmentSpread hPhrase =>
        obtain ⟨hIs, -, -⟩ := hPhrase
        exact absurd rfl (hStart hIs)
      | inlineFragment hPhrase =>
        obtain ⟨hIs, -, -, -⟩ := hPhrase
        exact absurd rfl (hStart hIs)

theorem foresees_selectionSetOf : Foresees room (selectionSetOf (selectionOf selectionSet))
    (phrases SelectionSetPhrase SelectionSet.inside) [] := by
  have hItems : ∀ k, isSelectionKind k → ¬ IsSign [.colon, .parenOpen, .atSign, .braceOpen] k := by
    rintro k (hName | rfl)
    · exact isNameKind.not_isSign k hName
    · rintro ⟨p, hp, hEq⟩
      cases hEq
      revert hp
      decide
  have hEnd : ¬ isSelectionKind .endOfInput := by
    rintro (hName | hEq)
    · cases hName
    · cases hEq
  have hEnclosed : Foresees room (enclosedSome .selectionSet (selectionOf selectionSet)) _ [] :=
    foresees_enclosedSome (foresees_selectionOf hSub) completable_selection starts_selection
      isClosing_of_isSelectionKind hEnd phrases_repeated hItems (by decide)
  rw [phrases_selectionSet]
  exact hEnclosed.map fun r => SelectionSet.mk r.1 r.2

end

theorem foresees_selectionSetWithin (room : Nat) : Foresees room (selectionSetWithin room)
    (phrases SelectionSetPhrase SelectionSet.nesting) [] := by
  induction room with
  | zero => exact foresees_tooDeep (phrases_succ_zero _ _)
  | succ room ih =>
    exact (foresees_selectionSetOf ih).nested (inner_phrases_succ _ _) (phrases_succ_zero _ _)

theorem foresees_selectionSet :
    Foresees maxDepth selectionSet (phrases SelectionSetPhrase SelectionSet.nesting) [] :=
  foresees_selectionSetWithin maxDepth

end GraphQLSyntax.Parser
