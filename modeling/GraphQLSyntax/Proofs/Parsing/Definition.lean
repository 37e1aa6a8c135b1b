import GraphQLSyntax.Parser.Definition
import GraphQLSyntax.Proofs.Parsing.SelectionSet

/-!
# Parsers of definitions
-/

set_option autoImplicit false

namespace GraphQLSyntax

theorem OperationKind.ofKeyword?_eq_some_iff {word : String} {k : OperationKind} :
    OperationKind.ofKeyword? word = some k ↔ word = k.text := by
  constructor
  · intro h
    unfold OperationKind.ofKeyword? at h
    repeat' split at h
    all_goals cases h
    all_goals assumption
  · rintro rfl
    exact OperationKind.ofKeyword?_text k

namespace Parser

variable {room : Nat}

/-! ## Variable definitions -/

theorem implements_optionalDefault :
    Implements maxDepth optionalDefault (Optional DefaultPhrase) [.equals]
      (optionalNesting Value.nesting) where
  sound := by
    intro s s' d h
    rw [optionalDefault] at h
    obtain ⟨s₁, hPeek, h⟩ := (peekIs_peeks .equals s).bind_eq_ok h
    split at h
    · rename_i hIs
      obtain ⟨t, s₂, hNext, h⟩ := bind_eq_ok h
      obtain ⟨hRest, hMoves⟩ := next_eq_ok hNext
      rw [hPeek.rest, List.nil_append, hRest] at hIs
      have ht : t.Is .equals := nextIs_cons_iff.mp hIs
      have hEquals : Moves s [t] s₂ := hPeek.trans (hMoves (by rw [ht]; trivial))
      obtain ⟨ts, v, s₃, hValue, hPhrase, hNest, h⟩ := (implements_value .variableDefault).bind_eq_ok h
      cases h
      exact ⟨t :: ts, hEquals.trans hValue, .present (.mk ht hPhrase), hEquals.room ▸ hNest⟩
    · cases h
      exact ⟨[], hPeek, .absent, Nat.zero_le _⟩
  complete := by
    intro s ts rest d hRoom hPhrase hStop
    rw [optionalDefault]
    refine Accepts.peek (peekIs_peeks .equals s) ?_
    intro s₁ hPeek
    cases hPhrase with
    | absent =>
      rw [List.nil_append, hStop .equals (.head _)]
      exact .pure _ _ _ _
    | present hPhrase =>
      obtain ⟨hIs, hPhrase⟩ := hPhrase
      rw [List.cons_append, nextIs_cons_iff.mpr hIs, if_pos rfl]
      refine Accepts.next ?_
      intro s₂ _
      exact ((implements_value .variableDefault).complete s₂.room_le hPhrase (notNext_nil _)).bind_last
        (Nat.le_refl _) fun _ _ => .pure _ _ _ _

theorem variable_startsOver {ts : List Token} {v : Variable} (h : VariablePhrase ts v) :
    v.span.StartsOver ts := by
  obtain ⟨-, -⟩ := h
  exact Span.startsOver_spanOver (List.cons_ne_nil _ _)

theorem implements_variableDefinition :
    Implements maxDepth variableDefinition VariableDefinitionPhrase [.bang, .equals]
      VariableDefinition.nesting where
  sound := by
    intro s s' d h
    rw [variableDefinition] at h
    obtain ⟨ts, v, s₁, hMoves₁, hVariable, -, h⟩ := implements_reference.bind_eq_ok h
    obtain ⟨colon, s₂, hMoves₂, hIs, h⟩ := expect_bind_eq_ok h
    obtain ⟨us, t, s₃, hMoves₃, hType, hNest, h⟩ := implements_typeReference.bind_eq_ok h
    obtain ⟨vs, d, s₄, hMoves₄, hDefault, hNest', h⟩ := implements_optionalDefault.bind_eq_ok h
    obtain ⟨rfl, rfl⟩ := spanFrom_eq_ok h
    have hMoves := hMoves₁.trans (hMoves₂.trans (hMoves₃.trans hMoves₄))
    refine ⟨ts ++ colon :: (us ++ vs), hMoves, ?_, ?_⟩
    · rw [hMoves.spanFrom ((variable_startsOver hVariable).append _)]
      exact .mk hVariable hIs hType hDefault
    · rw [hMoves₂.room, hMoves₁.room] at hNest
      rw [hMoves₃.room, hMoves₂.room, hMoves₁.room] at hNest'
      exact Nat.max_le.mpr ⟨hNest, hNest'⟩
  complete := by
    rintro s _ rest _ hRoom (@⟨colon, ts, us, vs, v, t, d, hVariable, hIs, hType, hDefault⟩) hStop
    have hStopType : NotNext [.bang] (vs ++ rest) := by
      cases hDefault with
      | absent => exact hStop.mono (by decide)
      | present hPhrase =>
        obtain ⟨hEquals, -⟩ := hPhrase
        exact notNext_cons hEquals (by decide)
    rw [variableDefinition]
    refine (implements_reference.complete hRoom hVariable (notNext_nil _)).bind (Nat.zero_le _) ?_
    intro s₁ hMoves₁
    refine Accepts.expect hIs ?_
    intro s₂ hMoves₂
    refine (implements_typeReference.complete s₂.room_le hType hStopType).bind (Nat.le_max_left _ _) ?_
    intro s₃ hMoves₃
    refine (implements_optionalDefault.complete s₃.room_le hDefault (hStop.mono (by decide))).bind_last
      (Nat.le_max_right _ _) ?_
    intro s₄ hMoves₄
    have hMoves := hMoves₁.trans (hMoves₂.trans (hMoves₃.trans hMoves₄))
    exact .spanFrom (hMoves.spanFrom ((variable_startsOver hVariable).append _))

theorem variableDefinition_startsWith :
    StartsWith VariableDefinitionPhrase fun k => k = .punctuator .dollar := by
  rintro _ _ ⟨hVariable, -, -, -⟩
  obtain ⟨hIs, -⟩ := hVariable
  exact ⟨_, _, rfl, hIs⟩

theorem implements_variableDefinitions :
    Implements maxDepth variableDefinitions VariableDefinitionsPhrase []
      (deepest VariableDefinition.nesting) := by
  have hEncloses : Encloses .variableDefinitions [.bang, .equals] fun k => k = .punctuator .dollar :=
    ⟨by decide, by decide, by decide⟩
  refine (implements_enclosedSome implements_variableDefinition variableDefinition_startsWith
    hEncloses).map (fun r => r.1) ?_ fun _ => rfl
  intro ts ds
  constructor
  · rintro ⟨hSome, hPhrase⟩
    exact ⟨(ds, spanOver ts), ⟨hSome, hPhrase, rfl⟩, rfl⟩
  · rintro ⟨r, ⟨hSome, hPhrase, -⟩, rfl⟩
    exact .mk hSome hPhrase

theorem variableDefinitions_startsWith :
    StartsWith VariableDefinitionsPhrase fun k => k = .punctuator .parenOpen := by
  rintro _ _ ⟨-, ⟨hIs, -, -⟩⟩
  exact ⟨_, _, rfl, hIs⟩

theorem implements_optionalVariableDefinitions :
    Implements maxDepth optionalVariableDefinitions (OptionalList VariableDefinitionsPhrase)
      [.parenOpen] (deepest VariableDefinition.nesting) :=
  implements_variableDefinitions.optionalList variableDefinitions_startsWith rfl

/-! ## Operations -/

theorem optionalName_eq_ok {s s' : ParserState} {n : Option Name} (h : optionalName s = .ok n s') :
    ∃ ts, Moves s ts s' ∧ Optional NamePhrase ts n := by
  rw [optionalName] at h
  obtain ⟨s₁, hPeek, h⟩ := (peekKind_peeks s).bind_eq_ok h
  split at h
  · obtain ⟨ts, n, s₂, hMoves, hPhrase, -, h⟩ := implements_name.bind_eq_ok h
    cases h
    exact ⟨ts, hPeek.trans hMoves, .present hPhrase⟩
  · cases h
    exact ⟨[], hPeek, .absent⟩

theorem optionalName_complete {s : ParserState} {ts rest : List Token} {n : Option Name}
    (hPhrase : Optional NamePhrase ts n)
    (hRest : ((nextKind rest).bind TokenKind.nameText?).isSome = false) :
    Accepts optionalName s ts rest n 0 := by
  rw [optionalName]
  refine Accepts.peek (a := nextKind) (peekKind_peeks s) ?_
  intro s₁ _
  cases hPhrase with
  | absent =>
    rw [List.nil_append, hRest]
    exact .pure _ _ _ _
  | present hPhrase =>
    have hName : ((nextKind (ts ++ rest)).bind TokenKind.nameText?).isSome = true := by
      obtain ⟨hText⟩ := hPhrase
      rw [List.singleton_append, nextKind_cons, Option.bind_some, hText]
      rfl
    rw [hName, if_pos rfl]
    refine (implements_name.complete s₁.room_le hPhrase (notNext_nil _)).bind_last
      (Nat.le_refl _) ?_
    intro s₂ _
    exact .pure _ _ _ _

/-- The kind of operation and the span of its keyword. -/
def KeywordPhrase : Production (OperationKind × Span) := fun ts r =>
  OperationTypePhrase ts r.1 ∧ r.2 = spanOver ts

theorem implements_operationType : Implements maxDepth operationType KeywordPhrase [] fun _ => 0 where
  sound := by
    intro s s' r h
    rw [operationType] at h
    obtain ⟨s₁, hPeek, h⟩ := (peekKind_peeks s).bind_eq_ok h
    cases hKind : nextKind s.rest with
    | none =>
      rw [hKind] at h
      exact absurd h (unexpected_ne_ok _ _ _ _)
    | some k =>
      cases k with
      | name word =>
        cases hWord : OperationKind.ofKeyword? word with
        | none =>
          simp only [hKind, hWord] at h
          exact absurd h (unexpected_ne_ok _ _ _ _)
        | some kind =>
          simp only [hKind, hWord] at h
          obtain ⟨t, s₂, hNext, h⟩ := bind_eq_ok h
          cases h
          obtain ⟨hRest, hMoves⟩ := next_eq_ok hNext
          rw [← hPeek.nextKind_eq, hRest, nextKind_cons, Option.some.injEq] at hKind
          rw [OperationKind.ofKeyword?_eq_some_iff.mp hWord] at hKind
          exact ⟨[t], hPeek.trans (hMoves (by rw [hKind]; trivial)), ⟨.mk hKind, rfl⟩, Nat.zero_le _⟩
      | _ =>
        simp only [hKind] at h
        exact absurd h (unexpected_ne_ok _ _ _ _)
  complete := by
    rintro s ts rest ⟨kind, span⟩ hRoom ⟨⟨hIs⟩, hSpan⟩ -
    rw [operationType]
    refine Accepts.peek (a := nextKind) (peekKind_peeks s) ?_
    intro s₁ _
    rw [Token.IsWord] at hIs
    simp only [List.singleton_append, nextKind_cons, hIs, OperationKind.ofKeyword?_text]
    refine Accepts.next ?_
    intro s₂ _
    cases hSpan
    exact .pure _ _ _ _

theorem operation_not_name {us vs ws : List Token} {vds : List VariableDefinition}
    {ds : List Directive} {set : SelectionSet}
    (hVariables : OptionalList VariableDefinitionsPhrase us vds)
    (hDirectives : OptionalList DirectivesPhrase vs ds) (hSet : SelectionSetPhrase ws set)
    (rest : List Token) :
    ((nextKind (us ++ (vs ++ (ws ++ rest)))).bind TokenKind.nameText?).isSome = false := by
  cases hVariables with
  | present hPhrase =>
    obtain ⟨t, us, rfl, ht⟩ := variableDefinitions_startsWith hPhrase
    simp [ht, TokenKind.nameText?]
  | absent =>
    cases hDirectives with
    | present hPhrase =>
      obtain ⟨t, us, rfl, ht⟩ := directives_startsWith hPhrase
      simp [ht, TokenKind.nameText?]
    | absent =>
      obtain ⟨t, us, rfl, ht⟩ := selectionSet_startsWith hSet
      simp [ht, TokenKind.nameText?]

theorem keyword_startsOver {ts : List Token} {kind : OperationKind} {span : Span}
    (hKeyword : OperationTypePhrase ts kind) (hSpan : span = spanOver ts) (us : List Token) :
    span.StartsOver (ts ++ us) := by
  obtain ⟨-⟩ := hKeyword
  subst hSpan
  exact (Span.startsOver_spanOver (List.cons_ne_nil _ _)).append us

theorem selectionSet_span {ts : List Token} {set : SelectionSet} (h : SelectionSetPhrase ts set) :
    set.span = spanOver ts := by
  obtain ⟨-, -⟩ := h
  rfl

theorem operationDefinition_sound {s s' : ParserState} {d : OperationDefinition}
    (h : operationDefinition s = .ok d s') :
    ∃ ts, Moves s ts s' ∧ OperationPhrase ts d ∧ d.nesting ≤ s.room := by
  rw [operationDefinition] at h
  obtain ⟨s₁, hPeek, h⟩ := (peekIs_peeks .braceOpen s).bind_eq_ok h
  split at h
  · obtain ⟨ts, set, s₂, hMoves, hPhrase, hNest, h⟩ := implements_selectionSet.bind_eq_ok h
    cases h
    refine ⟨ts, hPeek.trans hMoves, ?_, ?_⟩
    · rw [selectionSet_span hPhrase]
      exact .shorthand hPhrase
    · rw [hPeek.room] at hNest
      exact Nat.max_le.mpr ⟨Nat.zero_le _, hNest⟩
  · obtain ⟨ts, ⟨kind, start⟩, s₂, hMoves₁, ⟨hKeyword, hStart⟩, -, h⟩ :=
      implements_operationType.bind_eq_ok h
    obtain ⟨n, s₃, hOptional, h⟩ := bind_eq_ok h
    obtain ⟨us, hMoves₂, hName⟩ := optionalName_eq_ok hOptional
    obtain ⟨vs, vds, s₄, hMoves₃, hVariables, hNest₁, h⟩ :=
      implements_optionalVariableDefinitions.bind_eq_ok h
    obtain ⟨ws, ds, s₅, hMoves₄, hDirectives, hNest₂, h⟩ := implements_optionalDirectives.bind_eq_ok h
    obtain ⟨xs, set, s₆, hMoves₅, hSet, hNest₃, h⟩ := implements_selectionSet.bind_eq_ok h
    obtain ⟨rfl, rfl⟩ := spanFrom_eq_ok h
    have hMoves : Moves s (ts ++ (us ++ (vs ++ (ws ++ xs)))) s' :=
      (hPeek.trans hMoves₁).trans (hMoves₂.trans (hMoves₃.trans (hMoves₄.trans hMoves₅)))
    refine ⟨_, hMoves, ?_, ?_⟩
    · rw [hMoves.spanFrom (keyword_startsOver hKeyword hStart _)]
      exact .mk hKeyword hName hVariables hDirectives hSet
    · rw [hMoves₂.room, hMoves₁.room, hPeek.room] at hNest₁
      rw [hMoves₃.room, hMoves₂.room, hMoves₁.room, hPeek.room] at hNest₂
      rw [hMoves₄.room, hMoves₃.room, hMoves₂.room, hMoves₁.room, hPeek.room] at hNest₃
      exact Nat.max_le.mpr ⟨Nat.max_le.mpr ⟨hNest₁, hNest₂⟩, hNest₃⟩

theorem operationDefinition_complete {s : ParserState} {ts rest : List Token} {d : OperationDefinition}
    (hPhrase : OperationPhrase ts d) : Accepts operationDefinition s ts rest d d.nesting := by
  have hStop := notNext_nil rest
  rw [operationDefinition]
  refine Accepts.peek (peekIs_peeks .braceOpen s) ?_
  intro s₁ hPeek
  cases hPhrase with
  | shorthand hSet =>
    have hFirst : nextIs .braceOpen (ts ++ rest) = true := by
      obtain ⟨t, us, rfl, ht⟩ := selectionSet_startsWith hSet
      exact nextIs_cons_iff.mpr ht
    rw [hFirst, if_pos rfl]
    refine (implements_selectionSet.complete s₁.room_le hSet hStop).bind_last (Nat.le_max_right _ _) ?_
    intro s₂ _
    rw [selectionSet_span hSet]
    exact .pure _ _ _ _
  | @mk ts us vs ws xs kind n vds ds set hKeyword hName hVariables hDirectives hSet =>
    have hFirst : nextIs .braceOpen (ts ++ (us ++ (vs ++ (ws ++ xs))) ++ rest) = false := by
      obtain ⟨hIs⟩ := hKeyword
      rw [Token.IsWord] at hIs
      exact nextIs_cons_eq_false (by rw [hIs]; simp)
    rw [hFirst, if_neg (by decide)]
    obtain ⟨t, ys, rfl, ht⟩ := selectionSet_startsWith hSet
    have hKeyword' : KeywordPhrase ts (kind, spanOver ts) := ⟨hKeyword, rfl⟩
    refine (implements_operationType.complete s₁.room_le hKeyword' (notNext_nil _)).bind
      (Nat.zero_le _) ?_
    intro s₂ hMoves₁
    refine (optionalName_complete hName ?_).bind (Nat.zero_le _) ?_
    · simpa [List.append_assoc] using operation_not_name hVariables hDirectives hSet rest
    intro s₃ hMoves₂
    have hStopVariables : NotNext [.parenOpen] (ws ++ t :: ys ++ rest) := by
      rw [List.append_assoc]
      exact notNext_optionalList directives_startsWith hDirectives (by decide)
        (notNext_cons ht (by decide))
    refine (implements_optionalVariableDefinitions.complete s₃.room_le hVariables
      hStopVariables).bind (Nat.le_trans (Nat.le_max_left _ _) (Nat.le_max_left _ _)) ?_
    intro s₄ hMoves₃
    refine (implements_optionalDirectives.complete s₄.room_le hDirectives
      (notNext_cons ht (by decide))).bind
      (Nat.le_trans (Nat.le_max_right _ _) (Nat.le_max_left _ _)) ?_
    intro s₅ hMoves₄
    refine (implements_selectionSet.complete s₅.room_le hSet hStop).bind_last (Nat.le_max_right _ _) ?_
    intro s₆ hMoves₅
    have hMoves := hMoves₁.trans (hMoves₂.trans (hMoves₃.trans (hMoves₄.trans hMoves₅)))
    exact .spanFrom (hMoves.spanFrom (keyword_startsOver hKeyword rfl _))

theorem implements_operationDefinition :
    Implements maxDepth operationDefinition OperationPhrase [] OperationDefinition.nesting where
  sound := operationDefinition_sound
  complete _ hPhrase _ := operationDefinition_complete hPhrase

/-! ## Fragments -/

theorem implements_fragmentDefinition :
    Implements maxDepth fragmentDefinition FragmentPhrase [] FragmentDefinition.nesting where
  sound := by
    intro s s' d h
    rw [fragmentDefinition] at h
    obtain ⟨keyword, s₁, hMoves₁, hIs, h⟩ := expectWord_bind_eq_ok h
    obtain ⟨ts, n, s₂, hMoves₂, hName, -, h⟩ := implements_fragmentName.bind_eq_ok h
    obtain ⟨us, t, s₃, hMoves₃, hType, -, h⟩ := implements_typeCondition.bind_eq_ok h
    obtain ⟨vs, ds, s₄, hMoves₄, hDirectives, hNest, h⟩ := implements_optionalDirectives.bind_eq_ok h
    obtain ⟨ws, set, s₅, hMoves₅, hSet, hNest', h⟩ := implements_selectionSet.bind_eq_ok h
    obtain ⟨rfl, rfl⟩ := spanFrom_eq_ok h
    have hMoves := hMoves₁.trans (hMoves₂.trans (hMoves₃.trans (hMoves₄.trans hMoves₅)))
    refine ⟨keyword :: (ts ++ (us ++ (vs ++ ws))), hMoves, ?_, ?_⟩
    · rw [hMoves.spanFrom (Span.startsOver_token keyword _)]
      exact .mk hIs hName hType hDirectives hSet
    · rw [hMoves₃.room, hMoves₂.room, hMoves₁.room] at hNest
      rw [hMoves₄.room, hMoves₃.room, hMoves₂.room, hMoves₁.room] at hNest'
      exact Nat.max_le.mpr ⟨hNest, hNest'⟩
  complete := by
    rintro s _ rest _ hRoom (@⟨keyword, ts, us, vs, ws, n, t, ds, set, hIs, hName, hType, hDirectives,
      hSet⟩) hStop
    obtain ⟨u, ys, rfl, hu⟩ := selectionSet_startsWith hSet
    rw [fragmentDefinition]
    refine Accepts.expectWord hIs ?_
    intro s₁ hMoves₁
    refine (implements_fragmentName.complete s₁.room_le hName (notNext_nil _)).bind
      (Nat.zero_le _) ?_
    intro s₂ hMoves₂
    refine (implements_typeCondition.complete s₂.room_le hType (notNext_nil _)).bind
      (Nat.zero_le _) ?_
    intro s₃ hMoves₃
    refine (implements_optionalDirectives.complete s₃.room_le hDirectives
      (notNext_cons hu (by decide))).bind (Nat.le_max_left _ _) ?_
    intro s₄ hMoves₄
    refine (implements_selectionSet.complete s₄.room_le hSet hStop).bind_last (Nat.le_max_right _ _) ?_
    intro s₅ hMoves₅
    have hMoves := hMoves₁.trans (hMoves₂.trans (hMoves₃.trans (hMoves₄.trans hMoves₅)))
    exact .spanFrom (hMoves.spanFrom (Span.startsOver_token _ _))

end Parser

end GraphQLSyntax
