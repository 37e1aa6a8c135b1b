import GraphQLSyntax.Parser.Selection
import GraphQLSyntax.Proofs.Parsing.TypeReference

/-!
# Parsers of selections
-/

set_option autoImplicit false

namespace GraphQLSyntax.Parser

variable {room : Nat}

/-! ## Arguments and directives -/

theorem implements_argument : Implements maxDepth argument ArgumentPhrase [] Argument.nesting := by
  refine implements_labelled Argument.mk (implements_value .argument) ?_ fun _ _ _ => rfl
  intro ts a
  constructor
  · rintro ⟨hName, hIs, hPhrase⟩
    exact ⟨_, _, _, _, _, rfl, hName, hIs, hPhrase, rfl⟩
  · rintro ⟨us, colon, vs, n, v, rfl, hName, hIs, hPhrase, rfl⟩
    exact .mk hName hIs hPhrase

theorem argument_startsWith : StartsWith ArgumentPhrase isNameKind := by
  rintro _ _ ⟨hName, -, -⟩
  obtain ⟨t, us, rfl, ht⟩ := name_startsWith hName
  exact ⟨t, _, rfl, ht⟩

theorem arguments_startsWith : StartsWith ArgumentsPhrase fun k => k = .punctuator .parenOpen := by
  rintro _ _ ⟨-, ⟨hIs, -, -⟩⟩
  exact ⟨_, _, rfl, hIs⟩

section

variable {e : Enclosure} (hOpening : e.opening = .parenOpen) (hClosing : e.closing = .parenClose)

include hOpening hClosing

theorem implements_arguments :
    Implements maxDepth (arguments e) ArgumentsPhrase [] (deepest Argument.nesting) := by
  have hEncloses : Encloses e [] isNameKind :=
    ⟨fun h => h.ne_punctuator _ rfl, (fun h => nomatch h), (fun q hq => nomatch hq)⟩
  refine (implements_enclosedSome implements_argument argument_startsWith hEncloses).map
    (fun r => r.1) ?_ fun _ => rfl
  intro ts as
  simp only [WithinSome, Within, hOpening, hClosing]
  constructor
  · rintro ⟨hSome, hPhrase⟩
    exact ⟨(as, spanOver ts), ⟨hSome, hPhrase, rfl⟩, rfl⟩
  · rintro ⟨r, ⟨hSome, hPhrase, -⟩, rfl⟩
    exact .mk hSome hPhrase

theorem implements_optionalArguments :
    Implements maxDepth (optionalArguments e) (OptionalList ArgumentsPhrase) [.parenOpen]
      (deepest Argument.nesting) :=
  (implements_arguments hOpening hClosing).optionalList arguments_startsWith rfl

end

theorem directive_startsWith : StartsWith DirectivePhrase fun k => k = .punctuator .atSign := by
  rintro _ _ ⟨hIs, -, -⟩
  exact ⟨_, _, rfl, hIs⟩

theorem implements_directive :
    Implements maxDepth directive DirectivePhrase [.parenOpen] Directive.nesting where
  sound := by
    intro s s' d h
    rw [directive] at h
    obtain ⟨sign, s₁, hSign, hIs, h⟩ := expect_bind_eq_ok h
    obtain ⟨ts, n, s₂, hName, hNamePhrase, -, h⟩ := implements_name.bind_eq_ok h
    obtain ⟨us, as, s₃, hArguments, hPhrase, hNest, h⟩ :=
      (implements_optionalArguments rfl rfl).bind_eq_ok h
    obtain ⟨rfl, rfl⟩ := spanFrom_eq_ok h
    have hMoves := hSign.trans (hName.trans hArguments)
    refine ⟨sign :: (ts ++ us), hMoves, ?_, by rwa [hName.room, hSign.room] at hNest⟩
    rw [hMoves.spanFrom (Span.startsOver_token sign _)]
    exact .mk hIs hNamePhrase hPhrase
  complete := by
    rintro s _ rest _ hRoom ⟨hIs, hNamePhrase, hPhrase⟩ hStop
    rw [directive]
    refine Accepts.expect hIs ?_
    intro s₁ hSign
    refine (implements_name.complete (hSign.room ▸ hRoom) hNamePhrase (notNext_nil _)).bind
      (Nat.zero_le _) ?_
    intro s₂ hName
    refine ((implements_optionalArguments rfl rfl).complete (by rwa [hName.room, hSign.room]) hPhrase
      hStop).bind_last (Nat.le_refl _) ?_
    intro s₃ hArguments
    exact .spanFrom ((hSign.trans (hName.trans hArguments)).spanFrom (Span.startsOver_token _ _))

theorem implements_directives :
    Implements maxDepth directives DirectivesPhrase [.atSign, .parenOpen] (deepest Directive.nesting) where
  sound := by
    intro s s' ds h
    rw [directives] at h
    obtain ⟨ts, d, s₁, hFirst, hPhrase, hNest, h⟩ := implements_directive.bind_eq_ok h
    obtain ⟨us, others, s₂, hOthers, hPhrases, hDeepest, h⟩ :=
      repeatWhile_bind_eq_ok (· == some (.punctuator .atSign)) (peekIs_peeks .atSign)
        implements_directive h
    cases h
    rw [hFirst.room] at hDeepest
    exact ⟨ts ++ us, hFirst.trans hOthers, .mk (List.cons_ne_nil _ _) (.cons hPhrase hPhrases),
      Nat.max_le.mpr ⟨hNest, hDeepest⟩⟩
  complete := by
    rintro s ts rest ds hRoom ⟨hSome, hPhrases⟩ hStop
    have hSeparates : Separates (· == some (.punctuator .atSign)) [.parenOpen]
        fun k => k = .punctuator .atSign :=
      ⟨by rintro k rfl; rfl, by rintro k rfl q hq; simp_all⟩
    have hStop' : NotNext [.parenOpen] rest := hStop.mono (by decide)
    rw [directives]
    cases hPhrases with
    | nil => exact absurd rfl hSome
    | cons hPhrase hPhrases =>
      refine (implements_directive.complete hRoom hPhrase
        (directive_startsWith.notNext hSeparates hPhrases hStop')).bind (Nat.le_max_left _ _) ?_
      intro s₁ hFirst
      refine (repeatWhile_complete (peekIs_peeks .atSign) implements_directive directive_startsWith
        hSeparates (hStop .atSign (.head _)) hStop' hPhrases (hFirst.room ▸ hRoom)).bind_last
        (Nat.le_max_right _ _) ?_
      intro s₂ _
      exact .pure _ _ _ _

theorem directives_startsWith : StartsWith DirectivesPhrase fun k => k = .punctuator .atSign := by
  rintro _ _ ⟨hSome, hPhrases⟩
  cases hPhrases with
  | nil => exact absurd rfl hSome
  | cons hPhrase _ =>
    obtain ⟨t, us, rfl, ht⟩ := directive_startsWith hPhrase
    exact ⟨t, _, rfl, ht⟩

theorem implements_optionalDirectives :
    Implements maxDepth optionalDirectives (OptionalList DirectivesPhrase) [.atSign, .parenOpen]
      (deepest Directive.nesting) :=
  (implements_directives.optionalList directives_startsWith rfl).widen (by decide)

/-! ## Names, conditions and spreads -/

section

variable {s s₀ s' : ParserState} {ts : List Token} {n : Name}

theorem finishAlias_bind_eq_ok {β : Type} {f : Alias → Parser β} {b : β}
    (h : (finishAlias n >>= f) s = .ok b s') (hName : Moves s₀ ts s) (hPhrase : NamePhrase ts n) :
    ∃ colon s₁, Moves s [colon] s₁ ∧ AliasPhrase (ts ++ [colon]) ⟨n, spanOver (ts ++ [colon])⟩ ∧
      f ⟨n, spanOver (ts ++ [colon])⟩ s₁ = .ok b s' := by
  obtain ⟨a, s₁, hFinish, h⟩ := bind_eq_ok h
  rw [finishAlias] at hFinish
  obtain ⟨colon, s₂, hColon, hIs, hFinish⟩ := expect_bind_eq_ok hFinish
  obtain ⟨rfl, rfl⟩ := spanFrom_eq_ok hFinish
  rw [(hName.trans hColon).spanFrom ((name_startsOver hPhrase).append _)] at h
  exact ⟨colon, s₁, hColon, .mk hPhrase hIs, h⟩

theorem Accepts.finishAlias {colon : Token} {rest : List Token} (hIs : colon.Is .colon)
    (hName : Moves s₀ ts s) (hPhrase : NamePhrase ts n) :
    Accepts (Parser.finishAlias n) s [colon] rest ⟨n, spanOver (ts ++ [colon])⟩ 0 := by
  rw [Parser.finishAlias]
  refine Accepts.expect hIs ?_
  intro s₁ hColon
  exact .spanFrom ((hName.trans hColon).spanFrom ((name_startsOver hPhrase).append _))

end

theorem implements_responseAlias : Implements maxDepth responseAlias AliasPhrase [] fun _ => 0 where
  sound := by
    intro s s' a h
    rw [responseAlias] at h
    obtain ⟨ts, n, s₁, hName, hNamePhrase, -, h⟩ := implements_name.bind_eq_ok h
    rw [← bind_pure (finishAlias n)] at h
    obtain ⟨colon, s₂, hColon, hPhrase, h⟩ := finishAlias_bind_eq_ok h hName hNamePhrase
    cases h
    exact ⟨ts ++ [colon], hName.trans hColon, hPhrase, Nat.zero_le _⟩
  complete := by
    rintro s _ rest _ hRoom ⟨hNamePhrase, hIs⟩ -
    rw [responseAlias]
    refine (implements_name.complete hRoom hNamePhrase (notNext_nil _)).bind (Nat.le_refl _) ?_
    intro s₁ hName
    exact Accepts.finishAlias hIs hName hNamePhrase

theorem implements_fragmentName : Implements maxDepth fragmentName FragmentNamePhrase [] fun _ => 0 where
  sound := by
    intro s s' n h
    rw [fragmentName] at h
    obtain ⟨s₁, hPeek, h⟩ := (peekIsWord_peeks "on" s).bind_eq_ok h
    split at h
    · obtain ⟨span, s₂, -, h⟩ := bind_eq_ok h
      cases h
    · rename_i hOn
      obtain ⟨ts, hMoves, hPhrase, -⟩ := implements_name.sound h
      cases hPhrase with
      | @mk t text hText =>
        rw [← hPeek.nextKind_eq, hMoves.rest, List.singleton_append, nextKind_cons] at hOn
        exact ⟨[t], hPeek.trans hMoves, .mk (fun hIs => hOn (by rw [hIs]; rfl)) (.mk hText), Nat.zero_le _⟩
  complete := by
    rintro s _ rest n hRoom ⟨hOn, hPhrase⟩ hStop
    rw [fragmentName]
    refine Accepts.peek (a := fun ts => nextKind ts == some (.name "on")) (peekIsWord_peeks "on" s) ?_
    intro s₁ hPeek
    rw [List.singleton_append, nextKind_cons, if_neg (by simpa [Token.IsWord] using hOn)]
    exact implements_name.complete (hPeek.room ▸ hRoom) hPhrase hStop

section

variable {β : Type} {word : String} {f : Span → Parser β} {s s' : ParserState} {b : β}

theorem expectWord_bind_eq_ok (h : (expectWord word >>= f) s = .ok b s') :
    ∃ t s₁, Moves s [t] s₁ ∧ t.IsWord word ∧ f t.span s₁ = .ok b s' := by
  obtain ⟨span, s₂, hExpect, h⟩ := bind_eq_ok h
  rw [expectWord] at hExpect
  obtain ⟨s₁, hPeek, hExpect⟩ := (peekIsWord_peeks word s).bind_eq_ok hExpect
  split at hExpect
  · rename_i hIs
    obtain ⟨t, s₃, hNext, hExpect⟩ := bind_eq_ok hExpect
    cases hExpect
    obtain ⟨hRest, hMoves⟩ := next_eq_ok hNext
    rw [← hPeek.nextKind_eq, hRest, nextKind_cons, beq_iff_eq, Option.some.injEq] at hIs
    exact ⟨t, _, hPeek.trans (hMoves (by rw [hIs]; trivial)), hIs, h⟩
  · exact absurd hExpect (unexpected_ne_ok _ _ _ _)

theorem Accepts.expectWord {t : Token} {us rest : List Token} {n : Nat} (ht : t.IsWord word)
    (hf : ∀ s₁, Moves s [t] s₁ → Accepts (f t.span) s₁ us rest b n) :
    Accepts (Parser.expectWord word >>= f) s (t :: us) rest b n := by
  refine Accepts.bind_token (m := 0) ?_ (Nat.zero_le n) hf
  rw [Parser.expectWord]
  refine Accepts.peek (a := fun ts => nextKind ts == some (.name word)) (peekIsWord_peeks word s) ?_
  intro s₁ _
  rw [List.singleton_append, nextKind_cons, if_pos (by rw [ht]; exact beq_self_eq_true _)]
  refine Accepts.next ?_
  intro s₂ _
  exact .pure _ _ _ _

end

theorem implements_typeCondition : Implements maxDepth typeCondition TypeConditionPhrase [] fun _ => 0 where
  sound := by
    intro s s' t h
    rw [typeCondition] at h
    obtain ⟨on, s₁, hOn, hIs, h⟩ := expectWord_bind_eq_ok h
    obtain ⟨ts, named, s₂, hNamed, hPhrase, -, h⟩ := implements_namedType.bind_eq_ok h
    obtain ⟨rfl, rfl⟩ := spanFrom_eq_ok h
    have hMoves := hOn.trans hNamed
    refine ⟨on :: ts, hMoves, ?_, Nat.zero_le _⟩
    rw [hMoves.spanFrom (Span.startsOver_token on _)]
    exact .mk hIs hPhrase
  complete := by
    rintro s _ rest _ hRoom ⟨hIs, hPhrase⟩ hStop
    rw [typeCondition]
    refine Accepts.expectWord hIs ?_
    intro s₁ hOn
    refine (implements_namedType.complete (hOn.room ▸ hRoom) hPhrase hStop).bind_last (Nat.le_refl _) ?_
    intro s₂ hNamed
    exact .spanFrom ((hOn.trans hNamed).spanFrom (Span.startsOver_token _ _))

theorem implements_fragmentSpread :
    Implements maxDepth fragmentSpread FragmentSpreadPhrase [.atSign, .parenOpen]
      FragmentSpread.nesting where
  sound := by
    intro s s' f h
    rw [fragmentSpread] at h
    obtain ⟨dots, s₁, hDots, hIs, h⟩ := expect_bind_eq_ok h
    obtain ⟨ts, n, s₂, hName, hNamePhrase, -, h⟩ :=
      implements_fragmentName.bind_eq_ok h
    obtain ⟨us, ds, s₃, hDirectives, hPhrase, hNest, h⟩ := implements_optionalDirectives.bind_eq_ok h
    obtain ⟨rfl, rfl⟩ := spanFrom_eq_ok h
    have hMoves := hDots.trans (hName.trans hDirectives)
    refine ⟨dots :: (ts ++ us), hMoves, ?_, by rwa [hName.room, hDots.room] at hNest⟩
    rw [hMoves.spanFrom (Span.startsOver_token dots _)]
    exact .mk hIs hNamePhrase hPhrase
  complete := by
    rintro s _ rest _ hRoom ⟨hIs, hNamePhrase, hPhrase⟩ hStop
    rw [fragmentSpread]
    refine Accepts.expect hIs ?_
    intro s₁ hDots
    refine (implements_fragmentName.complete (hDots.room ▸ hRoom) hNamePhrase (notNext_nil _)).bind
      (Nat.zero_le _) ?_
    intro s₂ hName
    refine (implements_optionalDirectives.complete (by rwa [hName.room, hDots.room]) hPhrase
      hStop).bind_last (Nat.le_refl _) ?_
    intro s₃ hDirectives
    exact .spanFrom ((hDots.trans (hName.trans hDirectives)).spanFrom (Span.startsOver_token _ _))

end GraphQLSyntax.Parser
