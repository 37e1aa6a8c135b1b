import GraphQLSyntax.Proofs.Faults.Reached

/-!
# Single steps

What a look at the rest, the consumption of a token and a complaint about one lead to.
-/

set_option autoImplicit false

namespace GraphQLSyntax.Parser

variable {α β : Type}

/-! ## Looks -/

def KeepsOpeners (p : Parser α) : Prop :=
  ∀ ⦃s s' : ParserState⦄ ⦃a : α⦄, p s = .ok a s' → s'.openers = s.openers

theorem keepsOpeners_pure (a : α) : KeepsOpeners (pure a) := by
  intro s s' a' h
  cases h
  rfl

theorem KeepsOpeners.bind {p : Parser α} {f : α → Parser β} (hp : KeepsOpeners p)
    (hf : ∀ a, KeepsOpeners (f a)) : KeepsOpeners (p >>= f) := by
  intro s s' b h
  obtain ⟨a, s₁, hRun, h⟩ := bind_eq_ok h
  rw [hf a h, hp hRun]

theorem keepsOpeners_peekNth (n : Nat) : KeepsOpeners (peekNth n) := by
  intro s s' t h
  cases h
  rfl

theorem keepsOpeners_peekKindNth (n : Nat) : KeepsOpeners (peekKindNth n) :=
  (keepsOpeners_peekNth n).bind fun _ => keepsOpeners_pure _

theorem keepsOpeners_isAtEnd : KeepsOpeners isAtEnd := by
  intro s s' atEnd h
  cases h
  rfl

/-- A parser that tells something about what is left and changes nothing. -/
def Looks (p : Parser α) (a : List Token → α) : Prop :=
  ∀ s, ∃ s₁, p s = .ok (a s.rest) s₁ ∧ Moves s [] s₁ ∧ s₁.openers = s.openers

theorem looks_of_peeks {p : Parser α} {a : List Token → α} (hp : ∀ s, Peeks p s (a s.rest))
    (hKeeps : KeepsOpeners p) : Looks p a := by
  intro s
  obtain ⟨s₁, hRun, hMoves⟩ := hp s
  exact ⟨s₁, hRun, hMoves, hKeeps hRun⟩

theorem looks_peekNth (n : Nat) : Looks (peekNth n) (·[n]?) :=
  looks_of_peeks (peekNth_peeks n) (keepsOpeners_peekNth n)

theorem looks_peekKind : Looks peekKind nextKind :=
  looks_of_peeks peekKind_peeks (keepsOpeners_peekKindNth 0)

theorem looks_peekIs (p : Punctuator) : Looks (peekIs p) (nextIs p) :=
  looks_of_peeks (peekIs_peeks p) ((keepsOpeners_peekKindNth 0).bind fun _ => keepsOpeners_pure _)

theorem looks_peekIsWord (word : String) :
    Looks (peekIsWord word) fun ts => nextKind ts == some (.name word) :=
  looks_of_peeks (peekIsWord_peeks word) ((keepsOpeners_peekKindNth 0).bind fun _ => keepsOpeners_pure _)

theorem looks_isAtEnd : Looks isAtEnd fun ts => isEnd (nextKind ts) :=
  looks_of_peeks isAtEnd_peeks keepsOpeners_isAtEnd

theorem looks_notAtEnd : Looks (do return !(← isAtEnd)) fun ts => !isEnd (nextKind ts) :=
  looks_of_peeks (fun s => (isAtEnd_peeks s).map _) (keepsOpeners_isAtEnd.bind fun _ => keepsOpeners_pure _)

theorem looks_hasMore (e : Enclosure) : Looks (hasMore e) fun ts => goesOn e (nextKind ts) := by
  refine looks_of_peeks (hasMore_peeks e) ?_
  refine ((keepsOpeners_peekKindNth 0).bind fun _ => keepsOpeners_pure _).bind ?_
  intro closing
  cases closing with
  | true => exact keepsOpeners_pure false
  | false => exact keepsOpeners_isAtEnd.bind fun _ => keepsOpeners_pure _

section

variable {s₀ s s₁ : ParserState} {P Q K : Prospect} {os os' : List Opener} {C : TokenKind → Prop}
  {rest : List Token}

theorem Reached.look (h : Reached s₀ P os s Q) (hMoves : Moves s [] s₁)
    (hOpeners : s₁.openers = s.openers) : Reached s₀ P os s₁ Q := by
  have hRest : s₁.rest = s.rest := by rw [hMoves.rest, List.nil_append]
  have hBrackets : s₁.brackets = s.brackets := by rw [ParserState.brackets, hOpeners, ParserState.brackets]
  refine h.trans ⟨[], ?_⟩
  exact {
    moves := hMoves
    openers := by rw [hOpeners, h.openers]
    brackets := by rw [openAfter_nil, hBrackets]
    completable := h.completable
    completes := fun _ hvs => hvs
    confined := fun _ hvs => hvs
    barren := fun _ limit hZero vs hvs => by
      rw [hZero] at hvs
      exact Language.notMem_zero vs hvs }

theorem Foretold.peek {p : Parser α} {a : List Token → α} {f : α → Parser β} (hp : Looks p a)
    (h : Reached s₀ P os s Q)
    (hf : ∀ s₁, Reached s₀ P os s₁ Q → s₁.rest = s.rest → Foretold s₀ P os' K (f (a s.rest) s₁)) :
    Foretold s₀ P os' K ((p >>= f) s) := by
  obtain ⟨s₁, hRun, hMoves, hOpeners⟩ := hp s
  rw [bind_of_ok hRun]
  exact hf s₁ (h.look hMoves hOpeners) (by rw [hMoves.rest, List.nil_append])

theorem nextIs_iff_front {p : Punctuator} : nextIs p rest = true ↔ front rest = some (.punctuator p) := by
  constructor
  · intro h
    rw [nextIs, beq_iff_eq] at h
    rw [front, h]
    rfl
  · intro h
    rw [nextIs, nextKind_of_front h]
    exact beq_self_eq_true _

theorem nextIsWord_iff_front {word : String} :
    (nextKind rest == some (.name word)) = true ↔ front rest = some (.name word) := by
  rw [beq_iff_eq]
  constructor
  · intro h
    rw [front, h]
    rfl
  · exact nextKind_of_front

/-! ## Complaints -/

/-- What is in prospect does not start like the rest. -/
theorem blocked_of_starts (hQ : Starts Q C) (hNext : ∀ k, front rest = some k → ¬ C k)
    (hOpen : ∀ k, C k → k.isClosing = false) : Blocked Q [] rest := by
  intro vs hvs hMem
  obtain ⟨k, hFront, hk⟩ := hQ hMem
  exact hNext k (hvs.of_front hFront (hOpen k hk)) hk

theorem placed_of_cons {t : Token} {us : List Token} {e : ParseError} (hSpan : e.span.file = t.span.file) :
    Placed (t :: us) (t :: us) e := .inl ⟨t, .head us, hSpan⟩

theorem placed_nil {e : ParseError} (hSpan : e.span.file = none) : Placed [] [] e :=
  .inr ⟨hSpan, .inl rfl⟩

/-- A token is complained about. -/
theorem Reached.wrongToken {t : Token} {us : List Token} (h : Reached s₀ P os s Q) (hRest : s.rest = t :: us)
    (hBlocked : Blocked Q [] s.rest) (expected : Expected) : Failure s₀ P (.unexpected t expected) := by
  have hPlaced : ∀ {e : ParseError}, e.span = t.span → Placed s₀.rest s.rest e := by
    intro e hSpan
    refine h.placed ?_
    rw [hRest]
    exact placed_of_cons (by rw [hSpan])
  unfold ParseError.unexpected
  split
  · rename_i hKind
    exact h.fail (hPlaced rfl) (.unreadable hRest (by rw [hKind]; simp)
      (by rw [hKind]; exact id) (.lexical hKind rfl))
  · rename_i hKind
    refine h.fail (hPlaced rfl) (.ended ?_ ⟨_, rfl⟩ hBlocked)
    rw [hRest, front, nextKind_cons, hKind]
    rfl
  · rename_i hEnd
    exact h.fail (hPlaced rfl) (.unexpected hRest hEnd ⟨_, _, rfl⟩ rfl hBlocked)

/-- The end of the tokens is complained about. -/
theorem Reached.missing {e : ParseError} (h : Reached s₀ P os s Q) (hRest : s.rest = [])
    (hBlocked : Blocked Q [] s.rest) (hKind : ∃ expected, e.kind = .unexpectedEnd expected)
    (hSpan : e.span.file = none) : Failure s₀ P e := by
  refine h.fail (h.placed ?_) (.ended (by rw [hRest]; rfl) hKind hBlocked)
  rw [hRest]
  exact placed_nil hSpan

theorem Reached.unexpected (h : Reached s₀ P os s Q) (hBlocked : Blocked Q [] s.rest)
    (expected : Expected) : Foretold s₀ P os' K (Parser.unexpected expected s : EStateM.Result _ _ α) := by
  rw [Parser.unexpected]
  refine Foretold.peek (looks_peekNth 0) h ?_
  intro s₁ h₁ hSame
  rw [← hSame] at hBlocked ⊢
  cases hRest : s₁.rest with
  | nil => exact h₁.missing hRest hBlocked ⟨_, rfl⟩ rfl
  | cons t us => exact h₁.wrongToken hRest hBlocked expected

/-- Where a complaint about the next token points. -/
theorem looks_peekSpan (s : ParserState) : ∃ s₁ span, peekSpan s = .ok span s₁ ∧ Moves s [] s₁ ∧
    s₁.openers = s.openers ∧ ((∃ t us, s.rest = t :: us ∧ span = t.span) ∨ s.rest = [] ∧ span.file = none) := by
  obtain ⟨s₁, hRun, hMoves, hOpeners⟩ := looks_peekNth 0 s
  rw [peekSpan, bind_of_ok hRun]
  cases hRest : s.rest with
  | nil => exact ⟨s₁, _, rfl, hMoves, hOpeners, .inr ⟨rfl, rfl⟩⟩
  | cons t us => exact ⟨s₁, _, rfl, hMoves, hOpeners, .inl ⟨t, us, rfl, rfl⟩⟩

/-- An error that points at the next token. -/
theorem Reached.throwHere {f : Span → Parser α} (e : Span → ParseError) (h : Reached s₀ P os s Q)
    (hf : ∀ span s₁, f span s₁ = .error (e span) s₁) (hSpan : ∀ span, (e span).span = span)
    (hVerdict : ∀ span, Verdict s Q [] s.rest (e span)) :
    Foretold s₀ P os' K ((peekSpan >>= f) s) := by
  obtain ⟨s₁, span, hRun, -, -, hPlace⟩ := looks_peekSpan s
  rw [bind_of_ok hRun, hf]
  refine h.fail (h.placed ?_) (hVerdict span)
  obtain ⟨t, us, hRest, hToken⟩ | ⟨hRest, hFile⟩ := hPlace
  · rw [hRest]
    exact placed_of_cons (by rw [hSpan, hToken])
  · rw [hRest]
    exact placed_nil (by rw [hSpan, hFile])

/-- The next token is refused. -/
theorem Reached.refuseHere {f : Span → Parser α} (e : Span → ParseError) {k : TokenKind}
    (h : Reached s₀ P os s Q) (hFront : front s.rest = some k)
    (hf : ∀ span s₁, f span s₁ = .error (e span) s₁) (hSpan : ∀ span, (e span).span = span)
    (hKind : ∀ span, (e span).kind.isRefusal = true) (hBlocked : Blocked Q [] s.rest) :
    Foretold s₀ P os' K ((peekSpan >>= f) s) := by
  refine h.throwHere e hf hSpan fun span => ?_
  obtain ⟨t, us, hRest, hToken, hMore⟩ := cons_of_front hFront
  exact .refused hRest (by rwa [hToken]) (hKind span) hBlocked

/-! ## Tokens -/

/-- Consuming a token that is there and can be read. -/
theorem next_run {t : Token} {us : List Token} (hRest : s.rest = t :: us) :
    ∃ s₁, next s = .ok t s₁ ∧ s₁.rest = us ∧ s₁.openers = s.openers ∧
      (t.kind.Readable → Moves s [t] s₁) := by
  obtain ⟨stream, hRun, hList⟩ := next_cons hRest
  exact ⟨_, hRun, hList, rfl, (next_eq_ok hRun).2⟩

theorem next_nil (hRest : s.rest = []) :
    ∃ s₁, next s = .error ⟨"unexpected end of input", s.endSpan, .unexpectedEnd [], []⟩ s₁ := by
  have hFirst := (TokenStream.consume_eq s.stream).1
  rw [← ParserState.rest, hRest] at hFirst
  unfold next
  split
  · rename_i hSome
    rw [hSome] at hFirst
    cases hFirst
  · exact ⟨_, rfl⟩

theorem Reached.token {t : Token} (h : Reached s₀ P os s (tokenOf C * Q)) (ht : C t.kind)
    (hPlain : t.kind.isPlain = true) (hMoves : Moves s [t] s₁) (hOpeners : s₁.openers = s.openers) :
    Reached s₀ P os s₁ Q := by
  have hSame := h.openers
  obtain ⟨ts, hPasses⟩ := h
  refine ⟨ts ++ [t], hPasses.token ht hMoves (hOpeners.trans hSame) ?_⟩
  rw [trackBracket_plain hPlain, ParserState.brackets, ParserState.brackets, hOpeners]

theorem Foretold.next {t : Token} {us : List Token} {f : Token → Parser β}
    (h : Reached s₀ P os s (tokenOf C * Q)) (hRest : s.rest = t :: us) (ht : C t.kind)
    (hReadable : t.kind.Readable) (hPlain : t.kind.isPlain = true)
    (hf : ∀ s₁, Reached s₀ P os s₁ Q → Foretold s₀ P os' K (f t s₁)) :
    Foretold s₀ P os' K ((Parser.next >>= f) s) := by
  obtain ⟨s₁, hRun, -, hOpeners, hMoves⟩ := next_run hRest
  rw [bind_of_ok hRun]
  exact hf s₁ (h.token ht hPlain (hMoves hReadable) hOpeners)

/-- Consuming a punctuator that comes next, or complaining. -/
theorem expect_run (q : Punctuator) (s : ParserState) :
    (∃ t s₁, expect q s = .ok t s₁ ∧ t.Is q ∧ Moves s [t] s₁ ∧ s₁.openers = s.openers) ∨
    (nextIs q s.rest = false ∧ ∃ s₁, expect q s = unexpected (.text q.text) s₁ ∧ Moves s [] s₁ ∧
      s₁.openers = s.openers) := by
  obtain ⟨s₁, hRun, hMoves, hOpeners⟩ := looks_peekIs q s
  rw [expect, bind_of_ok hRun]
  cases hIs : nextIs q s.rest with
  | false => exact .inr ⟨rfl, s₁, rfl, hMoves, hOpeners⟩
  | true =>
    cases hRest : s.rest with
    | nil =>
      rw [hRest] at hIs
      cases hIs
    | cons t us =>
      rw [hRest] at hIs
      have ht : t.Is q := nextIs_cons_iff.mp hIs
      have hRest₁ : s₁.rest = t :: us := by rw [← hRest, hMoves.rest, List.nil_append]
      obtain ⟨s₂, hNext, -, hOpeners₂, hMoves₂⟩ := next_run hRest₁
      have hReadable : t.kind.Readable := by
        rw [ht]
        trivial
      exact .inl ⟨t, s₂, hNext, ht, hMoves.trans (hMoves₂ hReadable), hOpeners₂.trans hOpeners⟩

/-- The complaint of an expectation that nothing closes. -/
theorem Reached.notExpected {q : Punctuator} (h : Reached s₀ P os s (sign q * Q))
    (hNext : nextIs q s.rest = false) (hq : (TokenKind.punctuator q).isClosing = false ∨ front s.rest ≠ none)
    (hMoves : Moves s [] s₁) (hOpeners : s₁.openers = s.openers) (expected : Expected) :
    Foretold s₀ P os' K (Parser.unexpected expected s₁ : EStateM.Result _ _ α) := by
  refine (h.look hMoves hOpeners).unexpected ?_ expected
  rw [← List.nil_append s₁.rest, ← hMoves.rest]
  intro vs hvs hMem
  obtain ⟨k, hFront, rfl⟩ := ((starts_tokenOf (C := (· = .punctuator q)) (by simp)).mul Q) hMem
  have hRest : front s.rest = some (.punctuator q) := by
    obtain hOpen | hMore := hq
    · exact hvs.of_front hFront hOpen
    · obtain hEq | ⟨hNone, -⟩ := hvs
      · rw [← hEq]
        exact hFront
      · exact absurd hNone hMore
  rw [← nextIs_iff_front, hNext] at hRest
  cases hRest

theorem Foretold.expect {q : Punctuator} {f : Token → Parser β}
    (hq : (TokenKind.punctuator q).isPlain = true) (h : Reached s₀ P os s (sign q * Q))
    (hf : ∀ t s₁, Reached s₀ P os s₁ Q → Foretold s₀ P os' K (f t s₁)) :
    Foretold s₀ P os' K ((Parser.expect q >>= f) s) := by
  obtain ⟨t, s₁, hRun, ht, hMoves, hOpeners⟩ | ⟨hNext, s₁, hRun, hMoves, hOpeners⟩ := expect_run q s
  · rw [bind_of_ok hRun]
    exact hf t s₁ (h.token ht (by rw [ht]; exact hq) hMoves hOpeners)
  · have hOpen : (TokenKind.punctuator q).isClosing = false := by
      rw [TokenKind.isPlain, Bool.and_eq_true, Bool.not_eq_true', Bool.not_eq_true'] at hq
      exact hq.2
    have hFails : Foretold s₀ P os Q (Parser.expect q s) := by
      rw [hRun]
      exact h.notExpected hNext (.inl hOpen) hMoves hOpeners _
    exact hFails.bind hf

theorem Foretold.expectWord {word : String} {f : Span → Parser β}
    (h : Reached s₀ P os s (tokenOf (· = .name word) * Q))
    (hf : ∀ span s₁, Reached s₀ P os s₁ Q → Foretold s₀ P os' K (f span s₁)) :
    Foretold s₀ P os' K ((Parser.expectWord word >>= f) s) := by
  refine Foretold.bind ?_ hf
  rw [Parser.expectWord]
  refine Foretold.peek (looks_peekIsWord word) h ?_
  intro s₁ h₁ hSame
  split
  · rename_i hIs
    rw [beq_iff_eq] at hIs
    cases hRest : s₁.rest with
    | nil =>
      rw [← hSame, hRest] at hIs
      cases hIs
    | cons t us =>
      rw [← hSame, hRest, nextKind_cons, Option.some.injEq] at hIs
      refine Foretold.next h₁ hRest hIs (by rw [hIs]; trivial) (by rw [hIs]; rfl) ?_
      intro s₂ h₂
      exact h₂
  · rename_i hIs
    refine h₁.unexpected ?_ _
    refine blocked_of_starts ((starts_tokenOf (C := (· = .name word)) (by simp)).mul Q) ?_ ?_
    · rintro k hFront rfl
      rw [hSame] at hFront
      exact hIs (nextIsWord_iff_front.mpr hFront)
    · rintro k rfl
      rfl

/-- A token is consumed first and looked at afterwards. -/
theorem Foretold.literal {f : Token → Parser β} (h : Reached s₀ P os s (tokenOf C * K))
    (hC : ∀ k, C k → k.isPlain = true)
    (hEnd : ¬ C .endOfInput)
    (hGood : ∀ t s₁, C t.kind → t.kind.Readable → ∃ b, f t s₁ = .ok b s₁)
    (hBad : ∀ t s₁, C t.kind → ¬ t.kind.Readable →
      ∃ e, f t s₁ = .error e s₁ ∧ t.Unread e)
    (hOther : ∀ t s₁, ¬ C t.kind → ∃ expected, f t s₁ = .error (.unexpected t expected) s₁) :
    Foretold s₀ P os K ((Parser.next >>= f) s) := by
  have hOpen : ∀ k, C k → k.isClosing = false := by
    intro k hk
    have hPlain := hC k hk
    rw [TokenKind.isPlain, Bool.and_eq_true, Bool.not_eq_true', Bool.not_eq_true'] at hPlain
    exact hPlain.2
  have hStarts : Starts (tokenOf C * K) C := (starts_tokenOf hEnd).mul K
  cases hRest : s.rest with
  | nil =>
    obtain ⟨s₁, hRun⟩ := next_nil hRest
    rw [bind_of_error hRun]
    refine h.missing hRest (blocked_of_starts hStarts ?_ hOpen) ⟨_, rfl⟩ rfl
    rw [hRest]
    intro k hFront
    cases hFront
  | cons t us =>
    obtain ⟨s₁, hRun, -, hOpeners, hMoves⟩ := next_run hRest
    rw [bind_of_ok hRun]
    by_cases ht : C t.kind
    · have hMore : t.kind ≠ .endOfInput := by
        intro hKind
        exact hEnd (hKind ▸ ht)
      by_cases hReadable : t.kind.Readable
      · obtain ⟨b, hResult⟩ := hGood t s₁ ht hReadable
        rw [hResult]
        exact h.token ht (hC _ ht) (hMoves hReadable) hOpeners
      · obtain ⟨e, hResult, hUnread⟩ := hBad t s₁ ht hReadable
        rw [hResult]
        refine h.fail (h.placed ?_) (.unreadable hRest hMore hReadable hUnread)
        rw [hRest]
        exact placed_of_cons (by rw [hUnread.span_eq])
    · obtain ⟨expected, hResult⟩ := hOther t s₁ ht
      rw [hResult]
      refine h.wrongToken hRest (blocked_of_starts hStarts ?_ hOpen) expected
      intro k hFront
      rw [hRest] at hFront
      have hKind := nextKind_of_front hFront
      rw [nextKind_cons, Option.some.injEq] at hKind
      rwa [← hKind]

end

end GraphQLSyntax.Parser
