import GraphQLSyntax.Proofs.Faults.TypeReference
import GraphQLSyntax.Proofs.Faults.Value
import GraphQLSyntax.Proofs.Parsing.Selection

/-!
# Arguments, directives and spreads
-/

set_option autoImplicit false

namespace GraphQLSyntax.Parser

/-! ## Arguments -/

theorem phrases_argument : phrases ArgumentPhrase Argument.nesting =
    tokenOf isNameKind * (sign .colon * phrases (ValuePhrase true) Value.nesting) := by
  refine phrases_labelled fun ts m => ⟨?_, ?_⟩
  · rintro ⟨_, ⟨hName, hIs, hValue⟩, hNest⟩
    exact ⟨_, _, _, _, _, rfl, hName, hIs, hValue, hNest⟩
  · rintro ⟨us, colon, vs, n, v, rfl, hName, hIs, hValue, hNest⟩
    exact ⟨_, .mk hName hIs hValue, hNest⟩

theorem foresees_argument : Foresees maxDepth argument (phrases ArgumentPhrase Argument.nesting) [] :=
  (foresees_labelled (foresees_value .argument) Argument.mk).congr phrases_argument

theorem starts_argument : Starts (phrases ArgumentPhrase Argument.nesting) isNameKind := by
  rw [phrases_argument]
  exact starts_name _

theorem completable_argument : Completable (phrases ArgumentPhrase Argument.nesting) := by
  rw [phrases_argument]
  exact completable_name.mul ((completable_sign _).mul (completable_value _ _))

theorem phrases_arguments : phrases ArgumentsPhrase (deepest Argument.nesting) =
    sign .parenOpen * (phrases ArgumentPhrase Argument.nesting *
      (phrases (Repeated ArgumentPhrase) (deepest Argument.nesting) * sign .parenClose)) := by
  refine Eq.trans ?_ (phrases_withinSome (e := .fieldArguments))
  refine phrases_congr ?_
  intro ts n
  constructor
  · rintro ⟨as, ⟨hSome, hPhrase⟩, hNest⟩
    exact ⟨(as, spanOver ts), ⟨hSome, hPhrase, rfl⟩, hNest⟩
  · rintro ⟨r, ⟨hSome, hPhrase, -⟩, hNest⟩
    exact ⟨r.1, .mk hSome hPhrase, hNest⟩

theorem starts_arguments :
    Starts (phrases ArgumentsPhrase (deepest Argument.nesting)) (IsSign [.parenOpen]) := by
  rw [phrases_arguments]
  exact starts_sign _ _

theorem completable_arguments : Completable (phrases ArgumentsPhrase (deepest Argument.nesting)) := by
  rw [phrases_arguments]
  exact (completable_sign _).mul
    (completable_argument.mul (completable_repeated.mul (completable_sign _)))

section

variable {e : Enclosure} (hOpening : e.opening = .parenOpen) (hClosing : e.closing = .parenClose)

include hOpening hClosing

theorem foresees_arguments :
    Foresees maxDepth (arguments e) (phrases ArgumentsPhrase (deepest Argument.nesting)) [] := by
  have hEnclosed : Foresees maxDepth (enclosedSome e argument) _ [] :=
    foresees_enclosedSome foresees_argument completable_argument starts_argument
      (fun _ => isClosing_of_isNameKind) (fun h => nomatch h) phrases_repeated
      (fun _ _ ⟨_, hp, _⟩ => nomatch hp) (List.not_mem_nil)
  rw [hOpening, hClosing, ← phrases_arguments] at hEnclosed
  exact hEnclosed.map fun r => r.1

theorem foresees_optionalArguments : Foresees maxDepth (optionalArguments e)
    (1 + phrases ArgumentsPhrase (deepest Argument.nesting)) [.parenOpen] :=
  (foresees_arguments hOpening hClosing).optional completable_arguments starts_arguments rfl

end

/-! ## Directives -/

theorem phrases_directive : phrases DirectivePhrase Directive.nesting = sign .atSign *
    (tokenOf isNameKind * (1 + phrases ArgumentsPhrase (deepest Argument.nesting))) := by
  rw [← phrases_optionalList rfl, ← phrases_name]
  ext limit ts
  constructor
  · rintro ⟨_, ⟨hIs, hName, hArguments⟩, hNest⟩
    exact mem_tokenOf_mul.mpr ⟨_, _, rfl, hIs,
      mem_mul.mpr ⟨_, ⟨_, hName, zero_le⟩, _, ⟨_, hArguments, hNest⟩, rfl⟩⟩
  · intro hts
    obtain ⟨mark, us, rfl, hIs, hus⟩ := mem_tokenOf_mul.mp hts
    obtain ⟨vs, ⟨n, hName, -⟩, ws, ⟨as, hArguments, hNest⟩, rfl⟩ := mem_mul.mp hus
    exact ⟨_, .mk hIs hName hArguments, hNest⟩

theorem starts_directive : Starts (phrases DirectivePhrase Directive.nesting) (IsSign [.atSign]) := by
  rw [phrases_directive]
  exact starts_sign _ _

theorem completable_directive : Completable (phrases DirectivePhrase Directive.nesting) := by
  rw [phrases_directive]
  exact (completable_sign _).mul (completable_name.mul (completable_optional _))

theorem foresees_directive :
    Foresees maxDepth directive (phrases DirectivePhrase Directive.nesting) [.parenOpen] := by
  intro s K hRoom hCompletable hK
  have h := Reached.refl s hCompletable
  rw [phrases_directive, mul_assoc, mul_assoc] at *
  rw [directive]
  refine Foretold.expect rfl h ?_
  intro t s₁ h₁
  refine foresees_name.bind h₁ hRoom (avoids_nil _) ?_
  intro n s₂ h₂
  refine (foresees_optionalArguments rfl rfl).bind h₂ hRoom hK ?_
  intro as s₃ h₃
  exact .spanFrom h₃

theorem loop_directives : Loop maxDepth (peekIs .atSign) (· == some (.punctuator .atSign)) directive
    (phrases DirectivePhrase Directive.nesting)
    (phrases (Repeated DirectivePhrase) (deepest Directive.nesting)) [.parenOpen] (IsSign [.atSign]) where
  more := looks_peekIs .atSign
  item := foresees_directive
  completable := completable_directive
  starts := starts_directive
  unroll := phrases_repeated
  goes := by
    rintro k ⟨p, hp, rfl⟩
    rw [List.mem_singleton.mp hp]
    rfl
  opens := isClosing_of_isSign rfl
  ends ts hEnd := by
    rw [← Bool.not_eq_true]
    intro hNext
    rw [nextIs_iff_front.mp hNext] at hEnd
    cases hEnd

theorem phrases_directives : phrases DirectivesPhrase (deepest Directive.nesting) =
    phrases DirectivePhrase Directive.nesting *
      phrases (Repeated DirectivePhrase) (deepest Directive.nesting) :=
  phrases_repeated_some fun _ _ => ⟨fun ⟨hSome, hPhrases⟩ => ⟨hSome, hPhrases⟩,
    fun ⟨hSome, hPhrases⟩ => .mk hSome hPhrases⟩

theorem starts_directives :
    Starts (phrases DirectivesPhrase (deepest Directive.nesting)) (IsSign [.atSign]) := by
  rw [phrases_directives]
  exact starts_directive.mul _

theorem completable_directives : Completable (phrases DirectivesPhrase (deepest Directive.nesting)) := by
  rw [phrases_directives]
  exact completable_directive.mul completable_repeated

theorem foresees_directives : Foresees maxDepth directives
    (phrases DirectivesPhrase (deepest Directive.nesting)) [.atSign, .parenOpen] := by
  intro s K hRoom hCompletable hK
  have h := Reached.refl s hCompletable
  rw [phrases_directives, mul_assoc] at *
  have hStop : Avoids (phrases (Repeated DirectivePhrase) (deepest Directive.nesting) * K)
      (IsSign [.parenOpen]) :=
    loop_directives.avoids (IsSign.not_of_disjoint (by decide)) (hK.mono (IsSign.mono (by decide)))
  rw [directives]
  refine foresees_directive.bind h hRoom hStop ?_
  intro d s₁ h₁
  refine (loop_directives.repeatWhile ?_ hStop hRoom h₁).map _
  intro limit vs hvs
  rw [← Bool.not_eq_true]
  intro hNext
  exact hK hvs _ (nextIs_iff_front.mp hNext) ⟨.atSign, .head _, rfl⟩

theorem foresees_optionalDirectives : Foresees maxDepth optionalDirectives
    (1 + phrases DirectivesPhrase (deepest Directive.nesting)) [.atSign, .parenOpen] :=
  (foresees_directives.optional completable_directives starts_directives rfl).widen (by decide)

/-- Before directives that may be left out, only they or what comes after them come next. -/
theorem avoids_optionalDirectives {K : Prospect} {ps : List Punctuator} (h : ∀ p ∈ [.atSign], p ∉ ps)
    (hK : Avoids K (IsSign ps)) :
    Avoids ((1 + phrases DirectivesPhrase (deepest Directive.nesting)) * K) (IsSign ps) :=
  ((starts_directives.mul K).avoids (IsSign.not_of_disjoint h)).optional hK

/-! ## Names, conditions and spreads -/

theorem phrases_alias : phrases AliasPhrase (fun _ => 0) = tokenOf isNameKind * sign .colon := by
  rw [← phrases_name]
  ext limit ts
  constructor
  · rintro ⟨_, ⟨hName, hIs⟩, -⟩
    exact mem_mul.mpr ⟨_, ⟨_, hName, zero_le⟩, [_], ⟨_, rfl, hIs⟩, rfl⟩
  · intro hts
    obtain ⟨us, ⟨n, hName, -⟩, _, ⟨colon, rfl, hIs⟩, rfl⟩ := mem_mul.mp hts
    exact ⟨_, .mk hName hIs, zero_le⟩

theorem completable_alias : Completable (phrases AliasPhrase fun _ => 0) := by
  rw [phrases_alias]
  exact completable_name.mul (completable_sign _)

theorem foretold_finishAlias {s₀ s : ParserState} {P K : Prospect} {os : List Opener} (n : Name)
    (h : Reached s₀ P os s (sign .colon * K)) : Foretold s₀ P os K (finishAlias n s) := by
  rw [finishAlias]
  refine Foretold.expect rfl h ?_
  intro colon s₁ h₁
  exact .spanFrom h₁

theorem foresees_responseAlias :
    Foresees maxDepth responseAlias (phrases AliasPhrase fun _ => 0) [] := by
  intro s K hRoom hCompletable hK
  have h := Reached.refl s hCompletable
  rw [phrases_alias, mul_assoc] at *
  rw [responseAlias]
  refine foresees_name.bind h hRoom (avoids_nil _) ?_
  intro n s₁ h₁
  exact foretold_finishAlias n h₁

/-- The kinds of the tokens that can name a fragment. -/
def isFragmentNameKind (k : TokenKind) : Prop := isNameKind k ∧ k ≠ .name "on"

theorem phrases_fragmentName : phrases FragmentNamePhrase (fun _ => 0) = tokenOf isFragmentNameKind := by
  refine phrases_token fun ts => ⟨?_, ?_⟩
  · rintro ⟨_, ⟨hOn, ⟨hText⟩⟩⟩
    exact ⟨_, rfl, by rw [isNameKind, hText]; rfl, hOn⟩
  · rintro ⟨t, rfl, hName, hOn⟩
    obtain ⟨text, hText⟩ := Option.isSome_iff_exists.mp hName
    exact ⟨_, .mk hOn (.mk hText)⟩

theorem completable_fragmentName : Completable (tokenOf isFragmentNameKind) :=
  completable_tokenOf (k := .null) ⟨rfl, by simp⟩ trivial

theorem starts_fragmentName (K : Prospect) : Starts (tokenOf isFragmentNameKind * K) isFragmentNameKind :=
  (starts_tokenOf fun h => nomatch h.1).mul K

theorem foresees_fragmentName : Foresees maxDepth fragmentName (tokenOf isFragmentNameKind) [] := by
  intro s K hRoom hCompletable hK
  rw [fragmentName]
  refine Foretold.peek (looks_peekIsWord "on") (.refl s hCompletable) ?_
  intro s₁ h₁ hSame
  rw [← hSame]
  split
  · rename_i hOn
    have hFront := nextIsWord_iff_front.mp hOn
    refine h₁.refuseHere (fun span => ⟨_, span, .reservedName "on" .fragmentName, _⟩) hFront
      (fun _ _ => rfl) (fun _ => rfl) (fun _ => rfl) (blocked_of_starts (starts_fragmentName K) ?_ ?_)
    · intro k hk
      rw [hFront] at hk
      cases hk
      exact fun h => h.2 rfl
    · exact fun k hk => isClosing_of_isNameKind hk.1
  · rename_i hOn
    refine Foretold.name h₁ (fun _ hk => hk.1) ?_
    intro k hFront hk
    refine ⟨hk, ?_⟩
    rintro rfl
    exact hOn (nextIsWord_iff_front.mpr hFront)

def isOn (k : TokenKind) : Prop := k = .name "on"

theorem phrases_typeCondition : phrases TypeConditionPhrase (fun _ => 0) =
    tokenOf isOn * phrases NamedTypePhrase (fun _ => 0) := by
  ext limit ts
  constructor
  · rintro ⟨_, ⟨hIs, hType⟩, -⟩
    exact mem_tokenOf_mul.mpr ⟨_, _, rfl, hIs, _, hType, zero_le⟩
  · intro hts
    obtain ⟨on, us, rfl, hIs, t, hType, -⟩ := mem_tokenOf_mul.mp hts
    exact ⟨_, .mk hIs hType, zero_le⟩

theorem nameText_on : NameText ("on" : String).toList :=
  @NameText.mk 'o' ['n'] rfl (List.all_eq_true.mp rfl)

theorem completable_typeCondition : Completable (phrases TypeConditionPhrase fun _ => 0) := by
  have hOn : isOn (.name "on") := rfl
  rw [phrases_typeCondition]
  exact (completable_tokenOf hOn ⟨nameText_on, by decide, by decide, by decide⟩).mul
    completable_namedType

theorem starts_typeCondition (K : Prospect) :
    Starts (phrases TypeConditionPhrase (fun _ => 0) * K) isOn := by
  rw [phrases_typeCondition, mul_assoc]
  exact (starts_tokenOf fun h => nomatch h).mul _

theorem foresees_typeCondition :
    Foresees maxDepth typeCondition (phrases TypeConditionPhrase fun _ => 0) [] := by
  intro s K hRoom hCompletable hK
  have h := Reached.refl s hCompletable
  rw [phrases_typeCondition, mul_assoc] at *
  rw [typeCondition]
  refine Foretold.expectWord h ?_
  intro on s₁ h₁
  refine foresees_namedType.bind h₁ hRoom (avoids_nil _) ?_
  intro t s₂ h₂
  exact .spanFrom h₂

/-- What follows the dots of a spread. -/
theorem foresees_spreadTail (dots : Span) :
    Foresees maxDepth (do
      let name ← fragmentName
      let directives ← optionalDirectives
      return FragmentSpread.mk name directives (← spanFrom dots))
      (tokenOf isFragmentNameKind * (1 + phrases DirectivesPhrase (deepest Directive.nesting)))
      [.atSign, .parenOpen] := by
  intro s K hRoom hCompletable hK
  have h := Reached.refl s hCompletable
  rw [mul_assoc] at *
  refine foresees_fragmentName.bind h hRoom (avoids_nil _) ?_
  intro n s₁ h₁
  refine foresees_optionalDirectives.bind h₁ hRoom hK ?_
  intro ds s₂ h₂
  exact .spanFrom h₂

theorem phrases_fragmentSpread : phrases FragmentSpreadPhrase FragmentSpread.nesting = sign .ellipsis *
    (tokenOf isFragmentNameKind * (1 + phrases DirectivesPhrase (deepest Directive.nesting))) := by
  rw [← phrases_optionalList rfl, ← phrases_fragmentName]
  ext limit ts
  constructor
  · rintro ⟨_, ⟨hIs, hName, hDirectives⟩, hNest⟩
    exact mem_tokenOf_mul.mpr ⟨_, _, rfl, hIs,
      mem_mul.mpr ⟨_, ⟨_, hName, zero_le⟩, _, ⟨_, hDirectives, hNest⟩, rfl⟩⟩
  · intro hts
    obtain ⟨dots, us, rfl, hIs, hus⟩ := mem_tokenOf_mul.mp hts
    obtain ⟨vs, ⟨n, hName, -⟩, ws, ⟨ds, hDirectives, hNest⟩, rfl⟩ := mem_mul.mp hus
    exact ⟨_, .mk hIs hName hDirectives, hNest⟩

theorem completable_fragmentSpread :
    Completable (phrases FragmentSpreadPhrase FragmentSpread.nesting) := by
  rw [phrases_fragmentSpread]
  exact (completable_sign _).mul (completable_fragmentName.mul (completable_optional _))

theorem foresees_fragmentSpread : Foresees maxDepth fragmentSpread
    (phrases FragmentSpreadPhrase FragmentSpread.nesting) [.atSign, .parenOpen] := by
  intro s K hRoom hCompletable hK
  have h := Reached.refl s hCompletable
  rw [phrases_fragmentSpread, mul_assoc] at *
  rw [fragmentSpread]
  refine Foretold.expect rfl h ?_
  intro dots s₁ h₁
  exact (foresees_spreadTail dots.span).call h₁ hRoom hK

end GraphQLSyntax.Parser
