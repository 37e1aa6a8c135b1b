import GraphQLSyntax.Proofs.Parsing.Definition

/-!
# Parsers of documents
-/

set_option autoImplicit false

namespace GraphQLSyntax.Parser

/-! ## Definitions -/

/-- Whether what comes next starts an operation. -/
def operationAhead (k : Option TokenKind) : Bool :=
  match k with
  | some (.punctuator .braceOpen) => true
  | some (.name word) => (OperationKind.ofKeyword? word).isSome
  | _ => false

theorem startsOperation_peeks (s : ParserState) :
    Peeks startsOperation s (operationAhead (nextKind s.rest)) := by
  obtain ⟨s₁, hRun, hMoves⟩ := peekKind_peeks s
  unfold Peeks operationAhead
  rw [startsOperation, bind_of_ok hRun]
  cases nextKind s.rest with
  | none => exact ⟨s₁, rfl, hMoves⟩
  | some k =>
    cases k with
    | punctuator p => cases p <;> exact ⟨s₁, rfl, hMoves⟩
    | _ => exact ⟨s₁, rfl, hMoves⟩

theorem operation_ahead {ts rest : List Token} {d : OperationDefinition} (h : OperationPhrase ts d) :
    operationAhead (nextKind (ts ++ rest)) = true := by
  cases h with
  | shorthand hSet =>
    obtain ⟨t, us, rfl, ht⟩ := selectionSet_startsWith hSet
    rw [List.cons_append, nextKind_cons, ht]
    rfl
  | @mk _ _ _ _ _ kind _ _ _ _ hKeyword =>
    obtain ⟨hIs⟩ := hKeyword
    rw [Token.IsWord] at hIs
    rw [List.append_assoc, List.singleton_append, nextKind_cons, hIs, operationAhead,
      OperationKind.ofKeyword?_text]
    rfl

theorem implements_definition :
    Implements maxDepth definition DefinitionPhrase [] Definition.nesting where
  sound := by
    intro s s' d h
    rw [definition] at h
    obtain ⟨s₁, hPeek₁, h⟩ := (startsOperation_peeks s).bind_eq_ok h
    split at h
    · exact implements_operationDefinition.branch_sound hPeek₁ h .operation fun _ => rfl
    · obtain ⟨s₂, hPeek₂, h⟩ := (peekIsWord_peeks "fragment" s₁).bind_eq_ok h
      have hPeek : Moves s [] s₂ := hPeek₁.trans hPeek₂
      split at h
      · exact implements_fragmentDefinition.branch_sound hPeek h .fragment fun _ => rfl
      · obtain ⟨found, s₃, -, h⟩ := bind_eq_ok h
        cases found with
        | none => exact absurd h (unexpected_ne_ok _ _ _ _)
        | some kind =>
          obtain ⟨span, s₄, -, h⟩ := bind_eq_ok h
          cases h
  complete := by
    intro s ts rest d hRoom hPhrase hStop
    rw [definition]
    refine Accepts.peek (a := fun ts => operationAhead (nextKind ts)) (startsOperation_peeks s) ?_
    intro s₁ hPeek
    cases hPhrase with
    | operation hPhrase =>
      rw [operation_ahead hPhrase, if_pos rfl]
      exact implements_operationDefinition.branch_complete s₁.room_le hPhrase hStop rfl
    | fragment hPhrase =>
      have hFirst : nextKind (ts ++ rest) = some (.name "fragment") := by
        obtain ⟨hIs, -, -, -, -⟩ := hPhrase
        exact congrArg some hIs
      rw [hFirst, if_neg (by decide)]
      refine Accepts.peek (a := fun ts => nextKind ts == some (.name "fragment"))
        (peekIsWord_peeks "fragment" s₁) ?_
      intro s₂ _
      rw [hFirst, if_pos (beq_self_eq_true _)]
      exact implements_fragmentDefinition.branch_complete s₂.room_le hPhrase hStop rfl

/-! ## The spans of definitions -/

theorem spanOver_append {ts us : List Token} (hts : ts ≠ []) (hus : us ≠ []) :
    spanOver (ts ++ us) = (spanOver ts).join (spanOver us) := by
  cases ts with
  | nil => exact absurd rfl hts
  | cons t ts =>
    cases us with
    | nil => exact absurd rfl hus
    | cons u us =>
      rw [List.cons_append, spanOver, List.getLast?_append, List.getLast?_cons]
      rfl

theorem definition_span {ts : List Token} {d : Definition} (h : DefinitionPhrase ts d) :
    d.span = spanOver ts := by
  cases h with
  | operation hPhrase =>
    cases hPhrase <;> rfl
  | fragment hPhrase =>
    obtain ⟨-, -, -, -, -⟩ := hPhrase
    rfl

theorem definition_startsWith : StartsWith DefinitionPhrase
    fun k => k ≠ .endOfInput := by
  intro ts d hPhrase
  cases hPhrase with
  | operation hPhrase =>
    cases hPhrase with
    | shorthand hSet =>
      obtain ⟨t, us, rfl, ht⟩ := selectionSet_startsWith hSet
      exact ⟨t, us, rfl, by rw [ht]; simp⟩
    | mk hKeyword =>
      obtain ⟨hIs⟩ := hKeyword
      exact ⟨_, _, rfl, by rw [hIs]; simp⟩
  | fragment hPhrase =>
    obtain ⟨hIs, -, -, -, -⟩ := hPhrase
    exact ⟨_, _, rfl, by rw [hIs]; simp⟩

/-- From the start of the first definition to the end of the last one. -/
theorem document_span {ts us : List Token} {d : Definition} {ds : List Definition}
    (hFirst : DefinitionPhrase ts d) (hOthers : Repeated DefinitionPhrase us ds) :
    d.span.join (ds.getLast?.getD d).span = spanOver (ts ++ us) := by
  induction hOthers generalizing ts d with
  | nil =>
    rw [List.append_nil, ← definition_span hFirst]
    rfl
  | @cons us vs e es hNext _ ih =>
    obtain ⟨t, ts, rfl, -⟩ := definition_startsWith hFirst
    obtain ⟨u, us, rfl, -⟩ := definition_startsWith hNext
    rw [spanOver_append (by simp) (by simp), ← ih hNext, ← definition_span hFirst, List.getLast?_cons]
    rfl

/-! ## Whole texts -/

/-- A parser that takes all the tokens up to the end of the input. -/
structure ImplementsWhole {α : Type} (p : Parser α) (D : Production α) (nest : α → Nat) : Prop where
  sound : ∀ {s s' : ParserState} {a : α}, p s = .ok a s' →
    ∃ ts, Moves s ts s' ∧ D ts a ∧ nest a ≤ s.room
  complete : ∀ {s : ParserState} {ts rest : List Token} {a : α}, D ts a →
    isEnd (nextKind rest) = true → Accepts p s ts rest a (nest a)

section

variable {α β : Type} {p : Parser α} {D : Production α} {stop : List Punctuator} {nest : α → Nat}

theorem Implements.whole (hp : Implements maxDepth p D stop nest) : ImplementsWhole p D nest where
  sound := hp.sound
  complete := by
    intro s ts rest a hPhrase hEnd
    refine hp.complete s.room_le hPhrase ?_
    intro q _
    cases rest with
    | nil => rfl
    | cons t rest =>
      refine nextIs_cons_eq_false ?_
      intro ht
      rw [nextKind_cons, ht] at hEnd
      cases hEnd

theorem ImplementsWhole.map {E : Production β} {nest' : β → Nat} (hp : ImplementsWhole p D nest)
    (g : α → β) (hPhrase : ∀ ts b, E ts b ↔ ∃ a, D ts a ∧ g a = b) (hNest : ∀ a, nest' (g a) = nest a) :
    ImplementsWhole (do return g (← p)) E nest' where
  sound := by
    intro s s' b h
    obtain ⟨a, s₁, hRun, h⟩ := bind_eq_ok h
    obtain ⟨ts, hMoves, hD, hRoom⟩ := hp.sound hRun
    cases h
    exact ⟨ts, hMoves, (hPhrase ts _).mpr ⟨a, hD, rfl⟩, hNest a ▸ hRoom⟩
  complete := by
    intro s ts rest b hE hEnd
    obtain ⟨a, hD, rfl⟩ := (hPhrase ts b).mp hE
    exact (hp.complete hD hEnd).bind_last (Nat.le_of_eq (hNest a).symm) fun _ _ => .pure _ _ _ _

end

theorem notAtEnd_peeks (s : ParserState) :
    Peeks (do return !(← isAtEnd) : Parser Bool) s (!isEnd (nextKind s.rest)) :=
  (isAtEnd_peeks s).map _

theorem implements_document : ImplementsWhole document DocumentPhrase Document.nesting where
  sound := by
    intro s s' d h
    rw [document] at h
    obtain ⟨ts, first, s₁, hFirst, hPhrase, hNest, h⟩ := implements_definition.bind_eq_ok h
    obtain ⟨us, others, s₂, hOthers, hPhrases, hDeepest, h⟩ :=
      repeatWhile_bind_eq_ok (fun k => !isEnd k) notAtEnd_peeks implements_definition h
    cases h
    rw [hFirst.room] at hDeepest
    refine ⟨ts ++ us, hFirst.trans hOthers, ?_, Nat.max_le.mpr ⟨hNest, hDeepest⟩⟩
    rw [document_span hPhrase hPhrases]
    exact .mk (List.cons_ne_nil _ _) (.cons hPhrase hPhrases)
  complete := by
    rintro s ts rest _ ⟨hSome, hPhrases⟩ hEnd
    have hSeparates : Separates (fun k => !isEnd k) [] fun k => k ≠ .endOfInput :=
      ⟨fun k hk => by simp [isEnd, hk], fun _ _ _ hq => nomatch hq⟩
    rw [document]
    cases hPhrases with
    | nil => exact absurd rfl hSome
    | cons hPhrase hPhrases =>
      rw [← document_span hPhrase hPhrases]
      refine (implements_definition.complete s.room_le hPhrase (notNext_nil _)).bind
        (Nat.le_max_left _ _) ?_
      intro s₁ _
      refine (repeatWhile_complete notAtEnd_peeks implements_definition definition_startsWith hSeparates
        (by rw [hEnd]; rfl) (notNext_nil _) hPhrases s₁.room_le).bind_last (Nat.le_max_right _ _) ?_
      intro s₂ _
      exact .pure _ _ _ _

end GraphQLSyntax.Parser
