import GraphQLSyntax.Proofs.Parsing.Selection

/-!
# Parsers of fields and selection sets

A field is parsed up to its selection set first. Up to there it is a field over a production without
phrases.
-/

set_option autoImplicit false

namespace GraphQLSyntax.Parser

variable {room : Nat}

/-! ## The head of a field -/

def FieldNamePhrase : Production (Option Alias × Name) := fun ts r =>
  ∃ us vs, ts = us ++ vs ∧ Optional AliasPhrase us r.1 ∧ NamePhrase vs r.2

/-- The start of the alias, or else of the name. -/
def fieldStart (responseAlias : Option Alias) (name : Name) : Span :=
  match responseAlias with
  | some a => a.span
  | none => name.span

theorem alias_startsOver {ts : List Token} {a : Alias} (h : AliasPhrase ts a) :
    a.span.StartsOver ts := by
  obtain ⟨-, -⟩ := h
  exact Span.startsOver_spanOver (by simp)

theorem fieldName_startsOver {us vs : List Token} {a : Option Alias} {n : Name}
    (hAlias : Optional AliasPhrase us a) (hName : NamePhrase vs n) :
    (fieldStart a n).StartsOver (us ++ vs) := by
  cases hAlias with
  | absent => exact name_startsOver hName
  | present hPhrase => exact (alias_startsOver hPhrase).append vs

theorem implements_fieldName : Implements maxDepth fieldName FieldNamePhrase [.colon] fun _ => 0 where
  sound := by
    intro s s' r h
    rw [fieldName] at h
    obtain ⟨ts, first, s₁, hFirst, hFirstPhrase, -, h⟩ := implements_name.bind_eq_ok h
    obtain ⟨s₂, hPeek, h⟩ := (peekIs_peeks .colon s₁).bind_eq_ok h
    have hMoves := hFirst.trans hPeek
    rw [List.append_nil] at hMoves
    split at h
    · obtain ⟨colon, s₃, hColon, hAlias, h⟩ := finishAlias_bind_eq_ok h hMoves hFirstPhrase
      obtain ⟨us, n, s₄, hName, hNamePhrase, -, h⟩ := implements_name.bind_eq_ok h
      cases h
      refine ⟨ts ++ [colon] ++ us, (hMoves.trans hColon).trans hName, ?_, Nat.zero_le _⟩
      exact ⟨ts ++ [colon], us, rfl, .present hAlias, hNamePhrase⟩
    · cases h
      exact ⟨ts, hMoves, ⟨[], ts, rfl, .absent, hFirstPhrase⟩, Nat.zero_le _⟩
  complete := by
    rintro s _ rest ⟨a, n⟩ hRoom ⟨us, vs, rfl, hAlias, hName⟩ hStop
    rw [fieldName]
    cases hAlias with
    | absent =>
      refine (implements_name.complete hRoom hName (notNext_nil _)).bind_last (Nat.le_refl _) ?_
      intro s₁ _
      refine Accepts.peek (peekIs_peeks .colon s₁) ?_
      intro s₂ _
      rw [List.nil_append, hStop .colon (.head _)]
      exact .pure _ _ _ _
    | present hAlias =>
      obtain ⟨hFirst, hIs⟩ := hAlias
      rw [List.append_assoc]
      refine (implements_name.complete hRoom hFirst (notNext_nil _)).bind (Nat.le_refl _) ?_
      intro s₁ hMoves
      refine Accepts.peek (peekIs_peeks .colon s₁) ?_
      intro s₂ hPeek
      rw [List.singleton_append, List.cons_append, nextIs_cons_iff.mpr hIs, if_pos rfl]
      refine Accepts.bind_token (Accepts.finishAlias hIs (by simpa using hMoves.trans hPeek) hFirst)
        (Nat.le_refl _) ?_
      intro s₃ hColon
      refine (implements_name.complete s₃.room_le hName (notNext_nil _)).bind_last (Nat.le_refl _) ?_
      intro s₄ _
      exact .pure _ _ _ _

/-- A field without a selection set. -/
abbrev FieldHeadPhrase : Production Field := FieldPhrase fun _ _ => False

theorem notNext_cons {q : Punctuator} {t : Token} {us : List Token} {stop : List Punctuator}
    (ht : t.kind = .punctuator q) (hStop : ∀ p ∈ stop, p ≠ q) : NotNext stop (t :: us) := by
  intro p hp
  exact nextIs_cons_eq_false (by rw [ht]; simpa using fun h => hStop p hp h.symm)

/-- Before a list that may be left out, nothing comes next that comes neither in the list nor after it. -/
theorem notNext_optionalList {α : Type} {D : Production (List α)} {q : Punctuator}
    {stop : List Punctuator} {ts rest : List Token} {as : List α}
    (hFirst : StartsWith D fun k => k = .punctuator q) (hPhrase : OptionalList D ts as)
    (hStop : ∀ p ∈ stop, p ≠ q) (hRest : NotNext stop rest) : NotNext stop (ts ++ rest) := by
  cases hPhrase with
  | absent => exact hRest
  | present hPhrase =>
    obtain ⟨t, us, rfl, ht⟩ := hFirst hPhrase
    exact notNext_cons ht hStop

theorem implements_fieldHead :
    Implements maxDepth fieldHead FieldHeadPhrase [.colon, .parenOpen, .atSign] Field.nesting where
  sound := by
    intro s s' f h
    rw [fieldHead] at h
    obtain ⟨_, ⟨a, n⟩, s₁, hName, ⟨ts, us, rfl, hAlias, hNamePhrase⟩, -, h⟩ :=
      implements_fieldName.bind_eq_ok h
    obtain ⟨vs, as, s₂, hArguments, hArgumentsPhrase, hNest, h⟩ :=
      (implements_optionalArguments rfl rfl).bind_eq_ok h
    obtain ⟨ws, ds, s₃, hDirectives, hDirectivesPhrase, hNest', h⟩ :=
      implements_optionalDirectives.bind_eq_ok h
    obtain ⟨rfl, rfl⟩ := spanFrom_eq_ok h
    have hMoves := hName.trans (hArguments.trans hDirectives)
    have hStart := (fieldName_startsOver hAlias hNamePhrase).append (vs ++ ws)
    have hTokens : ts ++ us ++ (vs ++ ws) = ts ++ (us ++ (vs ++ (ws ++ []))) := by simp
    rw [hTokens] at hMoves hStart
    refine ⟨_, hMoves, ?_, ?_⟩
    · have hPhrase : FieldHeadPhrase _ _ :=
        .mk hAlias hNamePhrase hArgumentsPhrase hDirectivesPhrase .absent
      rw [← hMoves.spanFrom hStart] at hPhrase
      exact hPhrase
    · rw [hName.room] at hNest
      rw [hArguments.room, hName.room] at hNest'
      exact Nat.max_le.mpr ⟨Nat.max_le.mpr ⟨hNest, hNest'⟩, Nat.zero_le _⟩
  complete := by
    rintro s _ rest _ hRoom (@⟨ts, us, vs, ws, _, a, n, as, ds, _, hAlias, hName, hArguments,
      hDirectives, hNone⟩) hStop
    cases hNone with
    | present hSet => exact hSet.elim
    | absent =>
      have hTokens : ts ++ (us ++ (vs ++ (ws ++ []))) = ts ++ us ++ (vs ++ ws) := by simp
      have hStopArguments : NotNext [.parenOpen] (ws ++ rest) :=
        notNext_optionalList directives_startsWith hDirectives (by decide) (hStop.mono (by decide))
      have hStopName : NotNext [.colon] (vs ++ ws ++ rest) := by
        rw [List.append_assoc]
        refine notNext_optionalList arguments_startsWith hArguments (by decide) ?_
        exact notNext_optionalList directives_startsWith hDirectives (by decide) (hStop.mono (by decide))
      rw [hTokens, fieldHead]
      have hNamePhrase : FieldNamePhrase (ts ++ us) (a, n) := ⟨ts, us, rfl, hAlias, hName⟩
      refine (implements_fieldName.complete hRoom hNamePhrase hStopName).bind (Nat.zero_le _) ?_
      intro s₁ hMoves₁
      refine ((implements_optionalArguments rfl rfl).complete (hMoves₁.room ▸ hRoom) hArguments
        hStopArguments).bind (Nat.le_trans (Nat.le_max_left _ _) (Nat.le_max_left _ _)) ?_
      intro s₂ hMoves₂
      refine (implements_optionalDirectives.complete (by rwa [hMoves₂.room, hMoves₁.room]) hDirectives
        (hStop.mono (by decide))).bind_last
        (Nat.le_trans (Nat.le_max_right _ _) (Nat.le_max_left _ _)) ?_
      intro s₃ hMoves₃
      have hMoves := hMoves₁.trans (hMoves₂.trans hMoves₃)
      exact .spanFrom (hMoves.spanFrom ((fieldName_startsOver hAlias hName).append _))

/-! ## Fields -/

theorem selectionSet_startsWith :
    StartsWith SelectionSetPhrase fun k => k = .punctuator .braceOpen := by
  rintro _ _ ⟨-, ⟨hIs, -, -⟩⟩
  exact ⟨_, _, rfl, hIs⟩

section

variable {sub : Production SelectionSet} {ts us : List Token} {f : Field} {set : SelectionSet}

theorem field_of_head (h : FieldHeadPhrase ts f) : FieldPhrase sub ts f := by
  obtain ⟨hAlias, hName, hArguments, hDirectives, hNone⟩ := h
  cases hNone with
  | absent => exact .mk hAlias hName hArguments hDirectives .absent
  | present hSet => exact hSet.elim

theorem field_startsWith : StartsWith (FieldPhrase sub) isNameKind := by
  rintro _ _ ⟨hAlias, hName, -, -, -⟩
  cases hAlias with
  | absent =>
    obtain ⟨t, us, rfl, ht⟩ := name_startsWith hName
    exact ⟨t, _, rfl, ht⟩
  | present hPhrase =>
    obtain ⟨hFirst, -⟩ := hPhrase
    obtain ⟨t, us, rfl, ht⟩ := name_startsWith hFirst
    exact ⟨t, _, rfl, ht⟩

/-- A head with a selection set after it. -/
def withSet (f : Field) (set : SelectionSet) (span : Span) : Field :=
  { f with selectionSet := some set, span }

theorem field_of_head_set (h : FieldHeadPhrase ts f) (hSet : sub us set) :
    FieldPhrase sub (ts ++ us) (withSet f set (spanOver (ts ++ us))) := by
  obtain ⟨hAlias, hName, hArguments, hDirectives, hNone⟩ := h
  cases hNone with
  | present hSet => exact hSet.elim
  | absent =>
    have hPhrase := FieldPhrase.mk hAlias hName hArguments hDirectives (.present hSet)
    simpa [List.append_assoc, withSet] using hPhrase

theorem field_cases (h : FieldPhrase sub ts f) :
    FieldHeadPhrase ts f ∨ ∃ us vs head set, ts = us ++ vs ∧ FieldHeadPhrase us head ∧ sub vs set ∧
      f = withSet head set (spanOver ts) := by
  obtain ⟨hAlias, hName, hArguments, hDirectives, hSet⟩ := h
  have hHead : FieldHeadPhrase _ _ := .mk hAlias hName hArguments hDirectives .absent
  cases hSet with
  | absent => exact .inl hHead
  | present hSet =>
    refine .inr ⟨_, _, _, _, ?_, hHead, hSet, rfl⟩
    simp [List.append_assoc]

theorem fieldHead_startsOver (h : FieldHeadPhrase ts f) : f.span.StartsOver ts := by
  obtain ⟨-, hName, -, -, -⟩ := h
  refine Span.startsOver_spanOver ?_
  obtain ⟨t, us, rfl, -⟩ := name_startsWith hName
  simp

theorem nesting_withSet (h : FieldHeadPhrase ts f) (span : Span) :
    (withSet f set span).nesting = max f.nesting set.nesting := by
  obtain ⟨-, -, -, -, hNone⟩ := h
  cases hNone with
  | present hSet => exact hSet.elim
  | absent => simp [withSet, Field.nesting, SelectionSet.optionalNesting, SelectionSet.nesting]

end

section

variable {selectionSet : Parser SelectionSet}
  (hSub : Implements room selectionSet SelectionSetPhrase [] SelectionSet.nesting)

include hSub

theorem implements_fieldOf :
    Implements room (fieldOf selectionSet) (FieldPhrase SelectionSetPhrase)
      [.colon, .parenOpen, .atSign, .braceOpen] Field.nesting where
  sound := by
    intro s s' f h
    rw [fieldOf] at h
    obtain ⟨ts, head, s₁, hHead, hHeadPhrase, hNest, h⟩ := implements_fieldHead.bind_eq_ok h
    obtain ⟨s₂, hPeek, h⟩ := (peekIs_peeks .braceOpen s₁).bind_eq_ok h
    split at h
    · obtain ⟨us, set, s₃, hSet, hSetPhrase, hNest', h⟩ := hSub.bind_eq_ok h
      obtain ⟨rfl, rfl⟩ := spanFrom_eq_ok h
      have hMoves : Moves s (ts ++ us) _ := hHead.trans (hPeek.trans hSet)
      refine ⟨ts ++ us, hMoves, ?_, ?_⟩
      · have hPhrase := field_of_head_set hHeadPhrase hSetPhrase
        rw [← hMoves.spanFrom ((fieldHead_startsOver hHeadPhrase).append us)] at hPhrase
        exact hPhrase
      · rw [hPeek.room, hHead.room] at hNest'
        refine Nat.le_trans (Nat.le_of_eq (nesting_withSet hHeadPhrase _)) ?_
        exact Nat.max_le.mpr ⟨hNest, hNest'⟩
    · cases h
      exact ⟨ts, by simpa using hHead.trans hPeek, field_of_head hHeadPhrase, hNest⟩
  complete := by
    intro s ts rest f hRoom hPhrase hStop
    rw [fieldOf]
    rcases field_cases hPhrase with hHead | ⟨us, vs, head, set, rfl, hHead, hSet, rfl⟩
    · refine (implements_fieldHead.complete s.room_le hHead (hStop.mono (by decide))).bind_last
        (Nat.le_refl _) ?_
      intro s₁ _
      refine Accepts.peek (peekIs_peeks .braceOpen s₁) ?_
      intro s₂ _
      rw [List.nil_append, hStop .braceOpen (by decide)]
      exact .pure _ _ _ _
    · rw [nesting_withSet hHead]
      obtain ⟨t, ws, rfl, ht⟩ := selectionSet_startsWith hSet
      refine (implements_fieldHead.complete s.room_le hHead (notNext_cons ht (by decide))).bind
        (Nat.le_max_left _ _) ?_
      intro s₁ hMoves₁
      refine Accepts.peek (peekIs_peeks .braceOpen s₁) ?_
      intro s₂ hPeek
      rw [List.cons_append, nextIs_cons_iff.mpr ht, if_pos rfl]
      refine (hSub.complete (by rwa [hPeek.room, hMoves₁.room]) hSet (notNext_nil _)).bind_last
        (Nat.le_max_right _ _) ?_
      intro s₃ hMoves₃
      have hMoves : Moves s (us ++ t :: ws) s₃ := hMoves₁.trans (hPeek.trans hMoves₃)
      exact .spanFrom (hMoves.spanFrom ((fieldHead_startsOver hHead).append _))

end

/-! ## Inline fragments -/

theorem optionalTypeCondition_eq_ok {s s' : ParserState} {t : Option TypeCondition}
    (h : optionalTypeCondition s = .ok t s') :
    ∃ ts, Moves s ts s' ∧ Optional TypeConditionPhrase ts t := by
  rw [optionalTypeCondition] at h
  obtain ⟨s₁, hPeek, h⟩ := (peekIsWord_peeks "on" s).bind_eq_ok h
  split at h
  · obtain ⟨ts, t, s₂, hMoves, hPhrase, -, h⟩ := implements_typeCondition.bind_eq_ok h
    cases h
    exact ⟨ts, hPeek.trans hMoves, .present hPhrase⟩
  · cases h
    exact ⟨[], hPeek, .absent⟩

theorem optionalTypeCondition_complete {s : ParserState} {ts rest : List Token}
    {t : Option TypeCondition} (hPhrase : Optional TypeConditionPhrase ts t)
    (hRest : nextKind rest ≠ some (.name "on")) : Accepts optionalTypeCondition s ts rest t 0 := by
  rw [optionalTypeCondition]
  refine Accepts.peek (a := fun ts => nextKind ts == some (.name "on")) (peekIsWord_peeks "on" s) ?_
  intro s₁ _
  cases hPhrase with
  | absent =>
    rw [List.nil_append, if_neg (by simpa using hRest)]
    exact .pure _ _ _ _
  | present hPhrase =>
    have hOn : nextKind (ts ++ rest) = some (.name "on") := by
      obtain ⟨hIs, -⟩ := hPhrase
      exact congrArg some hIs
    rw [hOn, if_pos (beq_self_eq_true _)]
    refine (implements_typeCondition.complete s₁.room_le hPhrase (notNext_nil _)).bind_last
      (Nat.le_refl _) ?_
    intro s₂ _
    exact .pure _ _ _ _

/-- What has to follow three dots for them to start an inline fragment. -/
def inlineAhead (rest : List Token) : Bool :=
  match rest[1]?.map Token.kind with
  | some (.punctuator .atSign) | some (.punctuator .braceOpen) => true
  | some (.name word) => word == "on" && ((rest[2]?.map Token.kind).bind TokenKind.nameText?).isSome
  | _ => false

theorem startsInlineFragment_peeks (s : ParserState) :
    Peeks startsInlineFragment s (inlineAhead s.rest) := by
  obtain ⟨s₁, hRun, hMoves⟩ := peekKindNth_peeks 1 s
  unfold Peeks
  rw [startsInlineFragment, bind_of_ok hRun, inlineAhead]
  cases s.rest[1]?.map Token.kind with
  | none => exact ⟨s₁, rfl, hMoves⟩
  | some k =>
    cases k with
    | name word =>
      by_cases hOn : word = "on"
      · obtain ⟨s₂, hRun₂, hMoves₂⟩ := peekKindNth_peeks 2 s₁
        have hRest : s₁.rest = s.rest := by rw [hMoves.rest, List.nil_append]
        rw [hRest] at hRun₂
        subst hOn
        exact ⟨s₂, bind_of_ok hRun₂, hMoves.trans hMoves₂⟩
      · simp only [if_neg hOn, beq_eq_false_iff_ne.mpr hOn]
        exact ⟨s₁, rfl, hMoves⟩
    | punctuator p => cases p <;> exact ⟨s₁, rfl, hMoves⟩
    | _ => exact ⟨s₁, rfl, hMoves⟩

/-- The tokens after the dots of an inline fragment start it. -/
theorem inlineAhead_of_phrase {sub : Production SelectionSet} {ts rest : List Token} {f : InlineFragment}
    (hSub : StartsWith sub fun k => k = .punctuator .braceOpen) (h : InlineFragmentPhrase sub ts f) :
    inlineAhead (ts ++ rest) = true := by
  obtain ⟨-, hType, hDirectives, hSet⟩ := h
  cases hType with
  | present hPhrase =>
    obtain ⟨hOn, hNamed⟩ := hPhrase
    obtain ⟨u, us, rfl, hu⟩ := namedType_startsWith hNamed
    rw [Token.IsWord] at hOn
    simpa [inlineAhead, hOn, isNameKind] using hu
  | absent =>
    cases hDirectives with
    | present hPhrase =>
      obtain ⟨u, us, rfl, hu⟩ := directives_startsWith hPhrase
      simp [inlineAhead, hu]
    | absent =>
      obtain ⟨u, us, rfl, hu⟩ := hSub hSet
      simp [inlineAhead, hu]

/-- The name of a spread fragment does not start an inline fragment. -/
theorem inlineAhead_of_spread {ts rest : List Token} {f : FragmentSpread}
    (h : FragmentSpreadPhrase ts f) : inlineAhead (ts ++ rest) = false := by
  obtain ⟨-, hName, -⟩ := h
  obtain ⟨hOn, hPhrase⟩ := hName
  obtain ⟨hText⟩ := hPhrase
  rename_i dots us ds t text
  have hSecond : (dots :: ([t] ++ us) ++ rest)[1]?.map Token.kind = some t.kind := rfl
  rw [inlineAhead, hSecond]
  cases hKind : t.kind with
  | name word =>
    have hNe : word ≠ "on" := fun hWord => hOn (hWord ▸ hKind)
    simp [hNe]
  | punctuator q =>
    rw [hKind] at hText
    cases hText
  | _ => rfl

section

variable {selectionSet : Parser SelectionSet}
  (hSub : Implements room selectionSet SelectionSetPhrase [] SelectionSet.nesting)

include hSub

theorem implements_inlineFragmentOf :
    Implements room (inlineFragmentOf selectionSet) (InlineFragmentPhrase SelectionSetPhrase) []
      InlineFragment.nesting where
  sound := by
    intro s s' f h
    rw [inlineFragmentOf] at h
    obtain ⟨dots, s₁, hDots, hIs, h⟩ := expect_bind_eq_ok h
    obtain ⟨t, s₂, hOptional, h⟩ := bind_eq_ok h
    obtain ⟨ts, hType, hTypePhrase⟩ := optionalTypeCondition_eq_ok hOptional
    obtain ⟨us, ds, s₃, hDirectives, hDirectivesPhrase, hNest, h⟩ :=
      implements_optionalDirectives.bind_eq_ok h
    obtain ⟨vs, set, s₄, hSet, hSetPhrase, hNest', h⟩ := hSub.bind_eq_ok h
    obtain ⟨rfl, rfl⟩ := spanFrom_eq_ok h
    have hMoves := hDots.trans (hType.trans (hDirectives.trans hSet))
    refine ⟨dots :: (ts ++ (us ++ vs)), hMoves, ?_, ?_⟩
    · rw [hMoves.spanFrom (Span.startsOver_token dots _)]
      exact .mk hIs hTypePhrase hDirectivesPhrase hSetPhrase
    · rw [hType.room, hDots.room] at hNest
      rw [hDirectives.room, hType.room, hDots.room] at hNest'
      exact Nat.max_le.mpr ⟨hNest, hNest'⟩
  complete := by
    rintro s _ rest _ hRoom (@⟨dots, ts, us, vs, t, ds, set, hIs, hType, hDirectives, hSet⟩) hStop
    obtain ⟨u, ws, rfl, hu⟩ := selectionSet_startsWith hSet
    have hNext : nextKind (us ++ u :: ws ++ rest) ≠ some (.name "on") := by
      cases hDirectives with
      | absent => simp [hu]
      | present hPhrase =>
        obtain ⟨v, xs, rfl, hv⟩ := directives_startsWith hPhrase
        simp [hv]
    rw [inlineFragmentOf]
    refine Accepts.expect hIs ?_
    intro s₁ hMoves₁
    refine (optionalTypeCondition_complete hType hNext).bind (Nat.zero_le _) ?_
    intro s₂ hMoves₂
    refine (implements_optionalDirectives.complete s₂.room_le hDirectives
      (notNext_cons hu (by decide))).bind (Nat.le_max_left _ _) ?_
    intro s₃ hMoves₃
    refine (hSub.complete (by rwa [hMoves₃.room, hMoves₂.room, hMoves₁.room]) hSet hStop).bind_last
      (Nat.le_max_right _ _) ?_
    intro s₄ hMoves₄
    have hMoves := hMoves₁.trans (hMoves₂.trans (hMoves₃.trans hMoves₄))
    exact .spanFrom (hMoves.spanFrom (Span.startsOver_token _ _))

theorem implements_selectionOf :
    Implements room (selectionOf selectionSet) (SelectionPhrase SelectionSetPhrase)
      [.colon, .parenOpen, .atSign, .braceOpen] Selection.nesting where
  sound := by
    intro s s' f h
    rw [selectionOf] at h
    obtain ⟨s₁, hPeek, h⟩ := (peekIs_peeks .ellipsis s).bind_eq_ok h
    split at h
    · obtain ⟨s₂, hPeek₂, h⟩ := (startsInlineFragment_peeks s₁).bind_eq_ok h
      have hLook : Moves s [] s₂ := hPeek.trans hPeek₂
      split at h
      · exact (implements_inlineFragmentOf hSub).branch_sound hLook h .inlineFragment fun _ => rfl
      · exact implements_fragmentSpread.branch_sound hLook h .fragmentSpread fun _ => rfl
    · exact (implements_fieldOf hSub).branch_sound hPeek h .field fun _ => rfl
  complete := by
    intro s ts rest f hRoom hPhrase hStop
    rw [selectionOf]
    refine Accepts.peek (peekIs_peeks .ellipsis s) ?_
    intro s₁ hPeek
    have hRoom₁ : s₁.room ≤ room := hPeek.room ▸ hRoom
    cases hPhrase with
    | field hPhrase =>
      have hFirst : nextIs .ellipsis (ts ++ rest) = false := by
        obtain ⟨t, us, rfl, ht⟩ := field_startsWith hPhrase
        exact nextIs_cons_eq_false (ht.ne_punctuator _)
      rw [hFirst]
      exact (implements_fieldOf hSub).branch_complete hRoom₁ hPhrase hStop rfl
    | fragmentSpread hPhrase =>
      have hFirst : nextIs .ellipsis (ts ++ rest) = true := by
        obtain ⟨hIs, -, -⟩ := hPhrase
        exact nextIs_cons_iff.mpr hIs
      rw [hFirst, if_pos rfl]
      refine Accepts.peek (startsInlineFragment_peeks s₁) ?_
      intro s₂ hPeek₂
      rw [inlineAhead_of_spread hPhrase]
      exact implements_fragmentSpread.branch_complete s₂.room_le hPhrase (hStop.mono (by decide)) rfl
    | inlineFragment hPhrase =>
      have hFirst : nextIs .ellipsis (ts ++ rest) = true := by
        obtain ⟨hIs, -, -, -⟩ := hPhrase
        exact nextIs_cons_iff.mpr hIs
      rw [hFirst, if_pos rfl]
      refine Accepts.peek (startsInlineFragment_peeks s₁) ?_
      intro s₂ hPeek₂
      rw [inlineAhead_of_phrase selectionSet_startsWith hPhrase, if_pos rfl]
      exact (implements_inlineFragmentOf hSub).branch_complete (hPeek₂.room ▸ hRoom₁) hPhrase
        (notNext_nil _) rfl

end

/-! ## Selection sets -/

theorem selection_startsWith : StartsWith (SelectionPhrase SelectionSetPhrase)
    fun k => isNameKind k ∨ k = .punctuator .ellipsis := by
  intro ts f hPhrase
  cases hPhrase with
  | field hPhrase =>
    obtain ⟨t, us, rfl, ht⟩ := field_startsWith hPhrase
    exact ⟨t, us, rfl, .inl ht⟩
  | fragmentSpread hPhrase =>
    obtain ⟨hIs, -, -⟩ := hPhrase
    exact ⟨_, _, rfl, .inr hIs⟩
  | inlineFragment hPhrase =>
    obtain ⟨hIs, -, -, -⟩ := hPhrase
    exact ⟨_, _, rfl, .inr hIs⟩

theorem implements_selectionSetOf {selectionSet : Parser SelectionSet}
    (hSub : Implements room selectionSet SelectionSetPhrase [] SelectionSet.nesting) :
    Implements room (selectionSetOf (selectionOf selectionSet)) SelectionSetPhrase []
      SelectionSet.inside := by
  have hEncloses : Encloses .selectionSet [.colon, .parenOpen, .atSign, .braceOpen]
      fun k => isNameKind k ∨ k = .punctuator .ellipsis := by
    have hOther : ∀ q, q ≠ .ellipsis →
        ¬ (isNameKind (.punctuator q) ∨ TokenKind.punctuator q = .punctuator .ellipsis) := by
      rintro q hq (hName | hDots)
      · cases hName
      · cases hDots
        exact hq rfl
    refine ⟨hOther _ (by decide), ?_, ?_⟩
    · rintro (hName | hDots)
      · cases hName
      · cases hDots
    · intro q hq
      refine ⟨hOther q ?_, ?_⟩ <;> · revert q; decide
  change Implements room (do return (fun r => SelectionSet.mk r.1 r.2) (← enclosedSome _ _)) _ _ _
  refine (implements_enclosedSome (implements_selectionOf hSub) selection_startsWith hEncloses).map
    _ ?_ ?_
  · intro ts set
    constructor
    · rintro ⟨hSome, hPhrase⟩
      exact ⟨(_, _), ⟨hSome, hPhrase, rfl⟩, rfl⟩
    · rintro ⟨⟨ss, span⟩, ⟨hSome, hPhrase, hSpan : span = spanOver ts⟩, rfl⟩
      subst hSpan
      exact .mk hSome hPhrase
  · rintro ⟨ss, span⟩
    exact Selection.deepestOf_eq ss

theorem implements_selectionSetWithin (room : Nat) :
    Implements room (selectionSetWithin room) SelectionSetPhrase [] SelectionSet.nesting := by
  induction room with
  | zero => exact implements_tooDeep fun s => Nat.succ_pos _
  | succ room ih => exact (implements_selectionSetOf ih).nested

theorem implements_selectionSet :
    Implements maxDepth selectionSet SelectionSetPhrase [] SelectionSet.nesting :=
  implements_selectionSetWithin maxDepth

end GraphQLSyntax.Parser
