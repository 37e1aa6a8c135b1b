import GraphQLSyntax.Proofs.Parsing.Progress

/-!
# The steps of a parser

A parser does one thing after the other, and every one of them uses the stream of tokens at most once: it looks ahead or
consumes a token. What holds at every moment of a run follows from what a single step keeps up.
-/

set_option autoImplicit false

namespace GraphQLSyntax

/-- How many tokens a parser looks at before it decides what to do. -/
def maxLookahead : Nat := 3

/-- Whether an error of the kind reports a token that was found. -/
def ErrorKind.reportsToken : ErrorKind → Bool
  | .unexpectedToken _ _ | .lexical => true
  | _ => false

namespace Parser

/-! ## Steps and what they make up -/

/-- A single step. What it reads of the state or changes there is no part of the stream, unless it looks ahead or
consumes a token. -/
inductive Step : {α : Type} → Parser α → Prop
  | pure {α : Type} (a : α) : Step (pure a)
  | get : Step get
  | modify {f : ParserState → ParserState} : (∀ s, (f s).stream = s.stream) → Step (modify f)
  | throw {α : Type} {e : ParseError} : e.kind.reportsToken = false → Step (throw e : Parser α)
  | peekNth {n : Nat} : n < maxLookahead → Step (peekNth n)
  | isAtEnd : Step isAtEnd
  | next : Step next
  | unexpected {α : Type} (expected : Expected) : Step (unexpected expected : Parser α)
  /-- A token is consumed and then taken for something, or refused. -/
  | literal {α : Type} {f : Token → Parser α} :
    (∀ t, (∃ a, f t = pure a) ∨ ∃ e, f t = throw e ∧
      (e.kind.reportsToken = false ∨ ∃ expected, e = .unexpected t expected)) → Step (next >>= f)

/-- The steps that a parser is made up of. -/
inductive Steps : {α : Type} → Parser α → Type 1
  | one {α : Type} {p : Parser α} : Step p → Steps p
  | bind {α β : Type} {p : Parser α} {f : α → Parser β} : Steps p → (∀ a, Steps (f a)) → Steps (p >>= f)
  | nested {α : Type} {p : Parser α} : Steps p → Steps (tooDeep : Parser α) → Steps (nested p)

variable {α : Type} {p : Parser α} {s s' t u : ParserState}

def finalState : EStateM.Result ParseError ParserState α → ParserState
  | .ok _ s => s
  | .error _ s => s

/-- The states that a run goes through: before and after every step. -/
def Steps.moments : {α : Type} → {p : Parser α} → Steps p → ParserState → List ParserState
  | _, p, .one _, s => [s, finalState (p s)]
  | _, _, @Steps.bind _ _ p _ first rest, s =>
    first.moments s ++
      match p s with
      | .ok a s₁ => (rest a).moments s₁
      | .error _ _ => []
  | _, _, @Steps.nested _ p inside deep, s =>
    if s.depth < maxDepth then
      s :: (inside.moments { s with depth := s.depth + 1 } ++ [finalState (Parser.nested p s)])
    else deep.moments s

theorem Steps.finalState_mem (steps : Steps p) (s : ParserState) : finalState (p s) ∈ steps.moments s := by
  induction steps generalizing s with
  | one _ => exact List.mem_cons_of_mem s (List.mem_singleton.mpr rfl)
  | @bind α β p f first rest ihFirst ihRest =>
    rw [moments]
    cases hRun : p s with
    | ok a s₁ =>
      rw [bind_of_ok hRun]
      exact List.mem_append_right _ (ihRest a s₁)
    | error e s₁ =>
      rw [bind_of_error hRun]
      have hFirst := ihFirst s
      rw [hRun] at hFirst
      exact List.mem_append_left _ hFirst
  | @nested α p inside deep ihInside ihDeep =>
    rw [moments]
    split
    · exact List.mem_cons_of_mem s (List.mem_append_right _ (List.mem_singleton.mpr rfl))
    · rename_i hDeep
      have hRun : Parser.nested p s = tooDeep s := if_neg hDeep
      rw [hRun]
      exact ihDeep s

/-! ## What a step keeps up -/

/-- One state is reached from another. Tokens were consumed, and no more than the limit are waiting. -/
structure Pulls (s t : ParserState) : Prop where
  rest : ∃ consumed, s.rest = consumed ++ t.rest
  waiting : t.stream.buffer.length ≤ maxLookahead

theorem Pulls.refl (h : s.stream.buffer.length ≤ maxLookahead) : Pulls s s := ⟨⟨[], rfl⟩, h⟩

theorem Pulls.trans (h : Pulls s t) (h' : Pulls t u) : Pulls s u := by
  obtain ⟨before, hBefore⟩ := h.rest
  obtain ⟨after, hAfter⟩ := h'.rest
  exact ⟨⟨before ++ after, by rw [hBefore, hAfter, List.append_assoc]⟩, h'.waiting⟩

/-- Nothing but the stream matters. -/
theorem Pulls.of_stream {s₁ t₁ : ParserState} (h : Pulls s t) (hFrom : s₁.stream = s.stream)
    (hTo : t₁.stream = t.stream) : Pulls s₁ t₁ := by
  obtain ⟨hRest, hWaiting⟩ := h
  rw [ParserState.rest, ParserState.rest, ← hFrom, ← hTo] at hRest
  rw [← hTo] at hWaiting
  exact ⟨hRest, hWaiting⟩

theorem length_fill_le (stream : TokenStream) (count : Nat) :
    (stream.fill count).buffer.length ≤ max stream.buffer.length count := by
  simp only [TokenStream.fill, List.length_append, List.length_take]
  omega

theorem pulls_peekNth {n : Nat} (hs : s.stream.buffer.length ≤ maxLookahead) (hn : n < maxLookahead) :
    Pulls s { s with stream := (s.stream.peekNth n).2 } where
  rest := ⟨[], (TokenStream.toList_peekNth s.stream n).symm⟩
  waiting := Nat.le_trans (length_fill_le s.stream (n + 1)) (Nat.max_le.mpr ⟨hs, hn⟩)

/-- The token that is consumed leaves the buffer, into which it was pulled before if need be. -/
theorem next_cases (hs : s.stream.buffer.length ≤ maxLookahead) :
    (∃ t s₁, next s = .ok t s₁ ∧ s.rest = t :: s₁.rest ∧ s₁.stream.buffer.length < maxLookahead) ∨
      ∃ e s₁, next s = .error e s₁ ∧ e.kind.reportsToken = false ∧ Pulls s s₁ := by
  have hLength := length_fill_le s.stream 1
  have hList := TokenStream.toList_fill s.stream 1
  unfold next TokenStream.consume
  generalize s.stream.fill 1 = filled at hLength hList
  obtain ⟨_ | ⟨t, buffer⟩, pending⟩ := filled
  · exact .inr ⟨_, _, rfl, rfl, ⟨[], hList.symm⟩, Nat.zero_le _⟩
  · refine .inl ⟨t, _, rfl, hList.symm, ?_⟩
    have hPulled : buffer.length + 1 ≤ maxLookahead :=
      Nat.le_trans hLength (Nat.max_le.mpr ⟨hs, by decide⟩)
    exact hPulled

theorem pulls_next (hs : s.stream.buffer.length ≤ maxLookahead) : Pulls s (finalState (next s)) := by
  obtain ⟨t, s₁, hRun, hRest, hWaiting⟩ | ⟨e, s₁, hRun, -, hPulls⟩ := next_cases hs
  · rw [hRun]
    exact ⟨⟨[t], hRest⟩, Nat.le_of_lt hWaiting⟩
  · rw [hRun]
    exact hPulls

theorem finalState_isAtEnd (s : ParserState) :
    finalState (isAtEnd s) = { s with stream := (s.stream.peekNth 0).2 } := by
  unfold isAtEnd TokenStream.isAtEnd TokenStream.peek
  rcases s.stream.peekNth 0 with ⟨_ | t, stream⟩ <;> rfl

theorem finalState_unexpected (expected : Expected) (s : ParserState) :
    finalState ((unexpected expected : Parser α) s) = { s with stream := (s.stream.peekNth 0).2 } := by
  have hRun : peekNth 0 s = .ok (s.stream.peekNth 0).1 { s with stream := (s.stream.peekNth 0).2 } := rfl
  rw [unexpected, bind_of_ok hRun]
  cases (s.stream.peekNth 0).1 <;> rfl

theorem Step.pulls (step : Step p) (hs : s.stream.buffer.length ≤ maxLookahead) : Pulls s (finalState (p s)) := by
  cases step with
  | pure | get | throw => exact .refl hs
  | modify hStream => exact (Pulls.refl hs).of_stream rfl (hStream s)
  | peekNth hn => exact pulls_peekNth hs hn
  | isAtEnd =>
    rw [finalState_isAtEnd]
    exact pulls_peekNth hs (by decide)
  | next => exact pulls_next hs
  | unexpected expected =>
    rw [finalState_unexpected]
    exact pulls_peekNth hs (by decide)
  | literal hMade =>
    have hNext := pulls_next hs
    cases hRun : Parser.next s with
    | error e s₁ =>
      rw [hRun] at hNext
      rw [bind_of_error hRun]
      exact hNext
    | ok t s₁ =>
      rw [hRun] at hNext
      rw [bind_of_ok hRun]
      obtain ⟨a, hTaken⟩ | ⟨e, hRefused, -⟩ := hMade t
      · rw [hTaken]
        exact hNext
      · rw [hRefused]
        exact hNext

/-- Through all of its steps, a run never lets more tokens wait than the limit says. -/
theorem Steps.pulls (steps : Steps p) (hs : s.stream.buffer.length ≤ maxLookahead) :
    ∀ t ∈ steps.moments s, Pulls s t := by
  induction steps generalizing s with
  | one step =>
    intro t ht
    obtain rfl | ht := List.mem_cons.mp ht
    · exact .refl hs
    · rw [List.mem_singleton.mp ht]
      exact step.pulls hs
  | @bind α β p f first rest ihFirst ihRest =>
    intro t ht
    rw [moments] at ht
    rcases List.mem_append.mp ht with ht | ht
    · exact ihFirst hs t ht
    · have hFirst := ihFirst hs _ (first.finalState_mem s)
      cases hRun : p s with
      | error e s₁ =>
        rw [hRun] at ht
        cases ht
      | ok a s₁ =>
        rw [hRun] at ht hFirst
        exact hFirst.trans (ihRest a hFirst.waiting t ht)
  | @nested α p inside deep ihInside ihDeep =>
    intro t ht
    rw [moments] at ht
    split at ht
    · rename_i hDepth
      have hInside : ∀ t ∈ inside.moments { s with depth := s.depth + 1 }, Pulls s t :=
        fun t ht => (@ihInside { s with depth := s.depth + 1 } hs t ht).of_stream rfl rfl
      rcases List.mem_cons.mp ht with rfl | ht
      · exact .refl hs
      · rcases List.mem_append.mp ht with ht | ht
        · exact hInside t ht
        · have hFinal := hInside _ (inside.finalState_mem { s with depth := s.depth + 1 })
          rw [List.mem_singleton.mp ht]
          unfold Parser.nested
          rw [if_pos hDepth]
          cases hRun : p { s with depth := s.depth + 1 } <;> rw [hRun] at hFinal <;> exact hFinal.of_stream rfl rfl
    · exact ihDeep hs t ht

/-! ## What is reported -/

/-- A token is reported that comes next or was consumed last, and fewer tokens than the limit were pulled after it. -/
def Reports (s : ParserState) (e : ParseError) (s' : ParserState) : Prop :=
  ∃ before t looked expected, s.rest = before ++ t :: (looked ++ s'.stream.pending) ∧ looked.length < maxLookahead ∧
    (s'.stream.buffer = t :: looked ∨ s'.stream.buffer = looked) ∧ e = .unexpected t expected

theorem Step.reports {e : ParseError} (step : Step p) (hs : s.stream.buffer.length ≤ maxLookahead)
    (hRun : p s = .error e s') (hKind : e.kind.reportsToken = true) : Reports s e s' := by
  cases step with
  | pure | get | modify | peekNth | isAtEnd => cases hRun
  | throw hOther =>
    cases hRun
    rw [hOther] at hKind
    cases hKind
  | next =>
    obtain ⟨t, s₁, hNext, -, -⟩ | ⟨d, s₁, hNext, hOther, -⟩ := next_cases hs
    · rw [hNext] at hRun
      cases hRun
    · rw [hNext] at hRun
      cases hRun
      rw [hOther] at hKind
      cases hKind
  | unexpected expected =>
    have hPeek : Parser.peekNth 0 s = .ok (s.stream.fill 1).buffer[0]? { s with stream := s.stream.fill 1 } := rfl
    have hLength := length_fill_le s.stream 1
    have hList := TokenStream.toList_fill s.stream 1
    rw [Parser.unexpected, bind_of_ok hPeek] at hRun
    generalize s.stream.fill 1 = filled at hRun hLength hList
    obtain ⟨_ | ⟨t, looked⟩, pending⟩ := filled
    · cases hRun
      cases hKind
    · cases hRun
      have hPulled : looked.length + 1 ≤ maxLookahead := Nat.le_trans hLength (Nat.max_le.mpr ⟨hs, by decide⟩)
      exact ⟨[], t, looked, expected, hList.symm, hPulled, .inl rfl, rfl⟩
  | literal hMade =>
    obtain ⟨t, s₁, hNext, hRest, hWaiting⟩ | ⟨d, s₁, hNext, hOther, -⟩ := next_cases hs
    · rw [bind_of_ok hNext] at hRun
      obtain ⟨a, hTaken⟩ | ⟨d, hRefused, hOther | ⟨expected, rfl⟩⟩ := hMade t
      · rw [hTaken] at hRun
        cases hRun
      · rw [hRefused] at hRun
        cases hRun
        rw [hOther] at hKind
        cases hKind
      · rw [hRefused] at hRun
        cases hRun
        exact ⟨[], t, s'.stream.buffer, expected, hRest, hWaiting, .inr rfl, rfl⟩
    · rw [bind_of_error hNext] at hRun
      cases hRun
      rw [hOther] at hKind
      cases hKind

theorem Steps.reports {e : ParseError} (steps : Steps p) (hs : s.stream.buffer.length ≤ maxLookahead)
    (hRun : p s = .error e s') (hKind : e.kind.reportsToken = true) : Reports s e s' := by
  induction steps generalizing s s' with
  | one step => exact step.reports hs hRun hKind
  | @bind α β p f first rest ihFirst ihRest =>
    cases hFirst : p s with
    | error d s₁ =>
      rw [bind_of_error hFirst] at hRun
      cases hRun
      exact ihFirst hs hFirst
    | ok a s₁ =>
      rw [bind_of_ok hFirst] at hRun
      have hPulls := first.pulls hs _ (first.finalState_mem s)
      rw [hFirst] at hPulls
      obtain ⟨consumed, hConsumed⟩ := hPulls.rest
      obtain ⟨before, t, looked, expected, hRest, hReported⟩ := ihRest a hPulls.waiting hRun
      refine ⟨consumed ++ before, t, looked, expected, ?_, hReported⟩
      rw [hConsumed, List.append_assoc, ← hRest]
  | @nested α p inside deep ihInside ihDeep =>
    unfold Parser.nested at hRun
    split at hRun
    · split at hRun
      · cases hRun
      · rename_i d s₁ hInside
        cases hRun
        exact @ihInside { s with depth := s.depth + 1 } s₁ hs hInside
    · exact ihDeep hs hRun

end Parser

end GraphQLSyntax
