import GraphQLSyntax.Proofs.Faults.Brackets
import GraphQLSyntax.Proofs.Parsing.Value

/-!
# Reached states and failures

A parser that starts with a prospect reaches states with prospects of their own. What has been consumed on
the way can be completed by all that is in prospect, and by nothing else that looks like the rest from
there on. A failure says at which token this comes to an end, and why.
-/

set_option autoImplicit false

namespace GraphQLSyntax.Parser

/-! ## Reached states -/

/-- From one state and its prospect to another, over some tokens. -/
structure Passes (s₀ : ParserState) (P : Prospect) (ts : List Token) (os : List Opener) (s : ParserState)
    (Q : Prospect) : Prop where
  moves : Moves s₀ ts s
  openers : s.openers = os
  brackets : openAfter s₀.brackets ts = some s.brackets
  completable : Completable Q
  completes : ∀ vs ∈ Q ⊤, ts ++ vs ∈ P ⊤
  confined : ∀ {limit : ℕ∞} {vs : List Token}, Resembles vs s.rest → ts ++ vs ∈ P limit → vs ∈ Q limit
  barren : front s.rest = none → ∀ {limit : ℕ∞}, Q limit = 0 → ∀ vs, ts ++ vs ∉ P limit

/-- A state that is reached with the given openers. -/
def Reached (s₀ : ParserState) (P : Prospect) (os : List Opener) (s : ParserState) (Q : Prospect) : Prop :=
  ∃ ts, Passes s₀ P ts os s Q

section

variable {s₀ s s' : ParserState} {P Q R K A : Prospect} {ts us : List Token} {os os' : List Opener}
  {C : TokenKind → Prop}

theorem Passes.refl (s : ParserState) (hP : Completable P) : Passes s P [] s.openers s P where
  moves := .refl s
  openers := rfl
  brackets := rfl
  completable := hP
  completes _ h := h
  confined _ h := h
  barren _ limit hZero vs h := by
    rw [hZero] at h
    exact Language.notMem_zero _ h

theorem Passes.trans (h : Passes s₀ P ts os s Q) (h' : Passes s Q us os' s' R) :
    Passes s₀ P (ts ++ us) os' s' R where
  moves := h.moves.trans h'.moves
  openers := h'.openers
  brackets := by
    rw [openAfter_append, h.brackets]
    exact h'.brackets
  completable := h'.completable
  completes vs hvs := by
    rw [List.append_assoc]
    exact h.completes _ (h'.completes vs hvs)
  confined hvs hMem := by
    rw [List.append_assoc] at hMem
    refine h'.confined hvs (h.confined ?_ hMem)
    rw [h'.moves.rest]
    exact hvs.append us
  barren hEnd limit hZero vs hMem := by
    rw [List.append_assoc] at hMem
    cases us with
    | nil =>
      have hBefore : Q limit = 0 := Language.ext fun vs =>
        ⟨fun hvs => (h'.barren hEnd hZero vs hvs).elim, fun hvs => (Language.notMem_zero vs hvs).elim⟩
      refine h.barren ?_ hBefore vs hMem
      rw [h'.moves.rest]
      exact hEnd
    | cons u us =>
      refine h'.barren hEnd hZero vs (h.confined ?_ hMem)
      rw [h'.moves.rest]
      exact .inl (front_append vs s'.rest)

theorem Reached.refl (s : ParserState) (hP : Completable P) : Reached s P s.openers s P :=
  ⟨[], .refl s hP⟩

theorem Reached.trans (h : Reached s₀ P os s Q) (h' : Reached s Q os' s' R) : Reached s₀ P os' s' R := by
  obtain ⟨ts, hPasses⟩ := h
  obtain ⟨us, hPasses'⟩ := h'
  exact ⟨ts ++ us, hPasses.trans hPasses'⟩

theorem Reached.room (h : Reached s₀ P os s Q) : s.room = s₀.room := by
  obtain ⟨ts, hPasses⟩ := h
  exact hPasses.moves.room

theorem Reached.openers (h : Reached s₀ P os s Q) : s.openers = os := by
  obtain ⟨ts, hPasses⟩ := h
  exact hPasses.openers

theorem Reached.completable (h : Reached s₀ P os s Q) : Completable Q := by
  obtain ⟨ts, hPasses⟩ := h
  exact hPasses.completable

theorem Reached.congr (h : Reached s₀ P os s Q) (hEq : Q = R) : Reached s₀ P os s R := hEq ▸ h

/-- The same prospect, as the rest shows. -/
theorem Passes.narrow (h : Passes s₀ P ts os s Q) (hR : Completable R)
    (hSub : ∀ vs ∈ R ⊤, vs ∈ Q ⊤)
    (hConfined : ∀ {limit : ℕ∞} {vs : List Token}, Resembles vs s.rest → vs ∈ Q limit → vs ∈ R limit)
    (hBarren : front s.rest = none → ∀ {limit : ℕ∞}, R limit = 0 → Q limit = 0) :
    Passes s₀ P ts os s R where
  moves := h.moves
  openers := h.openers
  brackets := h.brackets
  completable := hR
  completes vs hvs := h.completes vs (hSub vs hvs)
  confined hvs hMem := hConfined hvs (h.confined hvs hMem)
  barren hEnd _ hZero := h.barren hEnd (hBarren hEnd hZero)

theorem Reached.narrow (h : Reached s₀ P os s Q) (hR : Completable R)
    (hSub : ∀ vs ∈ R ⊤, vs ∈ Q ⊤)
    (hConfined : ∀ {limit : ℕ∞} {vs : List Token}, Resembles vs s.rest → vs ∈ Q limit → vs ∈ R limit)
    (hBarren : front s.rest = none → ∀ {limit : ℕ∞}, R limit = 0 → Q limit = 0) :
    Reached s₀ P os s R := by
  obtain ⟨ts, hPasses⟩ := h
  exact ⟨ts, hPasses.narrow hR hSub hConfined hBarren⟩

/-- An optional part that does not come next. At the end of the input it is missing too. -/
theorem Reached.skip (h : Reached s₀ P os s ((1 + A) * K)) (hA : Starts A C)
    (hOpen : ∀ k, C k → k.isClosing = false) (hNext : ∀ k, front s.rest = some k → ¬ C k) :
    Reached s₀ P os s K := by
  rw [add_mul, one_mul] at h
  refine h.narrow ?_ (fun vs hvs => .inl hvs) ?_ ?_
  · obtain ⟨ts, hts | hts, hWell⟩ := h.completable
    · exact ⟨ts, hts, hWell⟩
    · exact Completable.right ⟨ts, hts, hWell⟩
  · rintro limit vs hvs (hMem | hMem)
    · exact hMem
    · obtain ⟨k, hFront, hk⟩ := hA.mul K hMem
      exact absurd hk (hNext k (hvs.of_front hFront (hOpen k hk)))
  · intro _ limit hZero
    change K limit + (A * K) limit = 0
    rw [hZero, mul_eq_zero hZero, zero_add]

/-- An alternative whose first token comes next. -/
theorem Reached.choose {B : Prospect} {k : TokenKind} (h : Reached s₀ P os s Q) (hA : Completable B)
    (hSub : ∀ {limit : ℕ∞} {vs : List Token}, vs ∈ B limit → vs ∈ Q limit) (hFront : front s.rest = some k)
    (hOthers : ∀ {limit : ℕ∞} {vs : List Token}, vs ∈ Q limit → front vs = some k → vs ∈ B limit) :
    Reached s₀ P os s B := by
  refine h.narrow hA (fun vs hvs => hSub hvs) ?_ ?_
  · intro limit vs hvs hMem
    exact hOthers hMem (hvs.front_eq hFront)
  · intro hEnd
    rw [hFront] at hEnd
    cases hEnd

/-- An optional part that comes next. -/
theorem Reached.take {k : TokenKind} (h : Reached s₀ P os s ((1 + A) * K)) (hA : Completable A)
    (hFront : front s.rest = some k) (hK : ∀ {limit : ℕ∞} {vs : List Token}, vs ∈ K limit → front vs ≠ some k) :
    Reached s₀ P os s (A * K) := by
  have hCompletable : Completable K := h.completable.right
  rw [add_mul, one_mul] at h
  refine h.choose (hA.mul hCompletable) (fun hvs => .inr hvs) hFront ?_
  rintro limit vs (hMem | hMem) hvs
  · exact absurd hvs (hK hMem)
  · exact hMem

/-- A token in prospect is consumed. -/
theorem Passes.token {t : Token} (h : Passes s₀ P ts os s (tokenOf C * Q)) (ht : C t.kind)
    (hMoves : Moves s [t] s') (hOpeners : s'.openers = os')
    (hBrackets : trackBracket s.brackets t = some s'.brackets) : Passes s₀ P (ts ++ [t]) os' s' Q := by
  have hBefore : ∀ {limit : ℕ∞} {vs : List Token}, ts ++ [t] ++ vs ∈ P limit → vs ∈ Q limit := by
    intro limit vs hMem
    rw [List.append_assoc] at hMem
    have hToken : [t] ++ vs ∈ (tokenOf C * Q) limit := by
      refine h.confined ?_ hMem
      rw [hMoves.rest]
      exact .inl (front_append vs s'.rest)
    obtain ⟨u, us, hCons, -, hus⟩ := mem_tokenOf_mul.mp hToken
    cases hCons
    exact hus
  exact {
    moves := h.moves.trans hMoves
    openers := hOpeners
    brackets := by
      rw [openAfter_append, h.brackets, ← hBrackets]
      exact openAfter_singleton _ _
    completable := h.completable.right
    completes := fun vs hvs => by
      rw [List.append_assoc]
      exact h.completes _ (mem_tokenOf_mul.mpr ⟨t, vs, rfl, ht, hvs⟩)
    confined := fun _ => hBefore
    barren := fun _ limit hZero vs hMem => by
      have hvs := hBefore hMem
      rw [hZero] at hvs
      exact Language.notMem_zero vs hvs }

end

/-! ## Failures -/

/-- No word goes on after the tokens like the rest does. -/
def Blocked (P : Prospect) (ts us : List Token) : Prop :=
  ∀ vs, Resembles vs us → ts ++ vs ∉ P ⊤

/-- Where a state stands after some tokens. -/
def endAfter (s : ParserState) (ts : List Token) : Position :=
  ((ts.getLast?.map fun t => t.span.stop).or s.lastEnd).getD .origin

end Parser

/-- A token, or the end of the input, stands where it does not belong. -/
def ErrorKind.isMisplacement : ErrorKind → Bool
  | .unexpectedToken _ _ | .unexpectedEnd _ | .unclosedDelimiter _ => true
  | _ => false

/-- What is there can be read and is where it may belong, but it is refused. -/
def ErrorKind.isRefusal : ErrorKind → Bool
  | .reservedName _ _ | .wrongDocumentKind _ | .emptyConstruct _ | .invalidSyntax => true
  | _ => false

theorem ErrorKind.not_misplacement {k : ErrorKind} (h : k.isRefusal = true) : k.isMisplacement = false := by
  cases k with
  | unexpectedToken | unexpectedEnd | unclosedDelimiter => cases h
  | _ => rfl

/-- The error about a token that cannot be read. -/
inductive Token.Unread (t : Token) (e : ParseError) : Prop
  | lexical {message : String} {notes : List Note} : t.kind = .error message notes →
    e = .ofLexical message t.span notes → t.Unread e
  | int {raw : String} : t.kind = .int raw → e.kind = .invalidValue (.int raw) → e.span = t.span → t.Unread e
  | float {raw : String} : t.kind = .float raw → e.kind = .invalidValue (.float raw) → e.span = t.span →
    t.Unread e
  | string {raw : String} {fault : StringFault} : t.kind = .string raw → decodeStringLiteral raw = .error fault →
    e.kind = .invalidValue (.string fault) → e.span = t.span → t.Unread e

theorem Token.Unread.span_eq {t : Token} {e : ParseError} (h : t.Unread e) : e.span = t.span := by
  cases h with
  | lexical _ hError => rw [hError, ParseError.ofLexical]
  | int _ _ hSpan | float _ _ hSpan | string _ _ _ hSpan => exact hSpan

theorem Token.Unread.not_misplacement {t : Token} {e : ParseError} (h : t.Unread e) :
    e.kind.isMisplacement = false := by
  cases h with
  | lexical _ hError =>
    rw [hError]
    rfl
  | int _ hKind | float _ hKind | string _ _ hKind =>
    rw [hKind]
    rfl

namespace Parser

/-- Why a parser fails once the tokens before the rest are consumed. -/
inductive Verdict (s : ParserState) (P : Prospect) (ts us : List Token) (e : ParseError) : Prop
  | unexpected {t : Token} {rest : List Token} : us = t :: rest → t.kind ≠ .endOfInput →
    (∃ expected found, e.kind = .unexpectedToken expected found) → e.span = t.span → Blocked P ts us →
    Verdict s P ts us e
  | ended : front us = none → (∃ expected, e.kind = .unexpectedEnd expected) → Blocked P ts us →
    Verdict s P ts us e
  /-- Only the closing punctuator could make up for the end. -/
  | unclosed {o : Opener} {opened : List Token} : front us = none →
    openAfter s.brackets ts = some (o.token :: opened) → e = o.unclosedError (.emptyAt (endAfter s ts)) →
    (∀ vs, Resembles vs us → ts ++ vs ∈ P ⊤ → front vs = some (.punctuator o.enclosure.closing)) →
    Verdict s P ts us e
  | refused {t : Token} {rest : List Token} : us = t :: rest → t.kind ≠ .endOfInput →
    e.kind.isRefusal = true → Blocked P ts us → Verdict s P ts us e
  | unreadable {t : Token} {rest : List Token} : us = t :: rest → t.kind ≠ .endOfInput →
    ¬ t.kind.Readable → t.Unread e → Verdict s P ts us e
  /-- After three dots, the word before a type condition is no name, and no name follows it. -/
  | reservedOn {dots on : Token} {rest : List Token} : ts.getLast? = some dots → dots.Is .ellipsis →
    us = on :: rest → on.IsWord "on" → e.kind = .reservedName "on" .fragmentName →
    (∀ k, front rest = some k → ¬ isNameKind k) →
    (∀ vs, (∀ k, front vs = some k → ¬ isNameKind k) → ts ++ on :: vs ∉ P ⊤) → Verdict s P ts us e
  /-- There is no room for what has to come. -/
  | deep : e.kind = .invalidSyntax →
    (∀ vs, Resembles vs us ∨ front us = none → ts ++ vs ∉ P s.room) → Verdict s P ts us e

/-- The error is in a token's file, or where no token is left, or at an end where a bracket is open. -/
def Placed (rest us : List Token) (e : ParseError) : Prop :=
  (∃ t ∈ rest, e.span.file = t.span.file) ∨
    e.span.file = none ∧ (us = [] ∨ ∃ delimiter, e.kind = .unclosedDelimiter delimiter)

structure FailsAfter (s : ParserState) (P : Prospect) (ts us : List Token) (e : ParseError) : Prop where
  rest : s.rest = ts ++ us
  readable : ∀ t ∈ ts, t.kind.Readable
  completable : ∃ vs, ts ++ vs ∈ P ⊤ ∧ WellFormed vs
  placed : Placed s.rest us e
  verdict : Verdict s P ts us e

def Failure (s : ParserState) (P : Prospect) (e : ParseError) : Prop :=
  ∃ ts us, FailsAfter s P ts us e

section

variable {s₀ s : ParserState} {P Q : Prospect} {ts us vs : List Token} {os : List Opener}
  {e : ParseError}

/-- What is misplaced is an unexpected token, or the end of the input. -/
theorem Verdict.of_misplacement (h : Verdict s P ts us e) (hKind : e.kind.isMisplacement = true) :
    (∃ t rest, us = t :: rest ∧ t.kind ≠ .endOfInput ∧
      (∃ expected found, e.kind = .unexpectedToken expected found) ∧ e.span = t.span ∧ Blocked P ts us) ∨
    (front us = none ∧ (∃ expected, e.kind = .unexpectedEnd expected) ∧ Blocked P ts us) ∨
    ∃ o : Opener, front us = none ∧ e = o.unclosedError (.emptyAt (endAfter s ts)) ∧
      ∀ vs, Resembles vs us → ts ++ vs ∈ P ⊤ → front vs = some (.punctuator o.enclosure.closing) := by
  cases h with
  | unexpected hNext hMore hUnexpected hSpan hBlocked =>
    exact .inl ⟨_, _, hNext, hMore, hUnexpected, hSpan, hBlocked⟩
  | ended hEnd hEnded hBlocked => exact .inr (.inl ⟨hEnd, hEnded, hBlocked⟩)
  | unclosed hEnd _ hError hClosing => exact .inr (.inr ⟨_, hEnd, hError, hClosing⟩)
  | refused _ _ hRefusal =>
    rw [ErrorKind.not_misplacement hRefusal] at hKind
    cases hKind
  | unreadable _ _ _ hUnread =>
    rw [hUnread.not_misplacement] at hKind
    cases hKind
  | reservedOn _ _ _ _ hReserved =>
    rw [hReserved] at hKind
    cases hKind
  | deep hDeep =>
    rw [hDeep] at hKind
    cases hKind

theorem Placed.append (h : Placed vs us e) (ts : List Token) : Placed (ts ++ vs) us e := by
  obtain ⟨t, ht, hFile⟩ | h := h
  · exact .inl ⟨t, List.mem_append_right ts ht, hFile⟩
  · exact .inr h

theorem Passes.confined_append (h : Passes s₀ P ts os s Q) (hRest : s.rest = us ++ vs) {ws : List Token}
    {limit : ℕ∞} (hws : Resembles ws vs) (hMem : ts ++ us ++ ws ∈ P limit) : us ++ ws ∈ Q limit := by
  rw [List.append_assoc] at hMem
  refine h.confined ?_ hMem
  rw [hRest]
  exact hws.append us

theorem Passes.verdict (h : Passes s₀ P ts os s Q) (hRest : s.rest = us ++ vs)
    (hVerdict : Verdict s Q us vs e) : Verdict s₀ P (ts ++ us) vs e := by
  have hBlocked : Blocked Q us vs → Blocked P (ts ++ us) vs :=
    fun hBlocked ws hws hMem => hBlocked ws hws (h.confined_append hRest hws hMem)
  cases hVerdict with
  | unexpected hNext hMore hKind hSpan hNone =>
    exact .unexpected hNext hMore hKind hSpan (hBlocked hNone)
  | ended hEnd hKind hNone => exact .ended hEnd hKind (hBlocked hNone)
  | unclosed hEnd hOpened hError hClosing =>
    have hBrackets : openAfter s₀.brackets (ts ++ us) = openAfter s.brackets us := by
      rw [openAfter_append, h.brackets]
      rfl
    refine .unclosed hEnd (hBrackets.trans hOpened) ?_ fun ws hws hMem =>
      hClosing ws hws (h.confined_append hRest hws hMem)
    rw [hError, endAfter, endAfter, h.moves.lastEnd, List.getLast?_append]
    cases us.getLast? <;> rfl
  | refused hNext hMore hKind hNone => exact .refused hNext hMore hKind (hBlocked hNone)
  | unreadable hNext hMore hReadable hUnread => exact .unreadable hNext hMore hReadable hUnread
  | reservedOn hLast hDots hNext hOn hKind hRestFront hNone =>
    refine .reservedOn ?_ hDots hNext hOn hKind hRestFront ?_
    · rw [List.getLast?_append, hLast]
      rfl
    · intro ws hws hMem
      refine hNone ws hws (h.confined_append hRest ?_ hMem)
      rw [hNext]
      exact .inl rfl
  | deep hKind hNone =>
    refine .deep hKind ?_
    rintro ws hws hMem
    rw [← h.moves.room] at hMem
    by_cases hResembles : Resembles (us ++ ws) s.rest
    · rw [List.append_assoc] at hMem
      exact hNone ws hws (h.confined hResembles hMem)
    · cases us with
      | nil =>
        rw [List.nil_append] at hRest
        have hEnd : front vs = none := by
          refine hws.resolve_left fun hw => hResembles ?_
          rwa [hRest]
        rw [List.append_nil] at hMem
        refine h.barren (by rw [hRest, hEnd]) ?_ ws hMem
        exact Language.ext fun ws =>
          ⟨fun hMem => (hNone ws (.inr hEnd) hMem).elim, fun hMem => (Language.notMem_zero ws hMem).elim⟩
      | cons u us =>
        rw [hRest] at hResembles
        exact hResembles (.inl (front_append ws vs))

theorem Passes.failsAfter (h : Passes s₀ P ts os s Q) (hFails : FailsAfter s Q us vs e) :
    FailsAfter s₀ P (ts ++ us) vs e where
  rest := by rw [h.moves.rest, hFails.rest, List.append_assoc]
  readable t ht := (List.mem_append.mp ht).elim (h.moves.readable t) (hFails.readable t)
  completable := by
    obtain ⟨ws, hMem, hWell⟩ := hFails.completable
    exact ⟨ws, by rw [List.append_assoc]; exact h.completes _ hMem, hWell⟩
  placed := by
    rw [h.moves.rest]
    exact hFails.placed.append ts
  verdict := h.verdict hFails.rest hFails.verdict

theorem Reached.failure (h : Reached s₀ P os s Q) (hFailure : Failure s Q e) : Failure s₀ P e := by
  obtain ⟨ts, hPasses⟩ := h
  obtain ⟨us, vs, hFails⟩ := hFailure
  exact ⟨ts ++ us, vs, hPasses.failsAfter hFails⟩

/-- A failure at the next token. -/
theorem Reached.fail (h : Reached s₀ P os s Q) (hPlaced : Placed s₀.rest s.rest e)
    (hVerdict : Verdict s Q [] s.rest e) : Failure s₀ P e := by
  obtain ⟨ts, hPasses⟩ := h
  obtain ⟨ws, hMem, hWell⟩ := hPasses.completable
  refine ⟨ts, s.rest, hPasses.moves.rest, hPasses.moves.readable, ⟨ws, hPasses.completes ws hMem, hWell⟩,
    hPlaced, ?_⟩
  have hTransported := hPasses.verdict (List.nil_append s.rest).symm hVerdict
  rwa [List.append_nil] at hTransported

theorem Reached.placed (h : Reached s₀ P os s Q) (hPlaced : Placed s.rest us e) : Placed s₀.rest us e := by
  obtain ⟨ts, hPasses⟩ := h
  rw [hPasses.moves.rest]
  exact hPlaced.append ts

end

/-! ## What a run leads to -/

variable {α β : Type} {s₀ s : ParserState} {P Q K : Prospect} {os os' : List Opener} {p : Parser α}
  {f : α → Parser β}

/-- A run that starts with a prospect either reaches a state with another one or fails for a reason. -/
def Foretold (s₀ : ParserState) (P : Prospect) (os : List Opener) (K : Prospect) :
    EStateM.Result ParseError ParserState α → Prop
  | .ok _ s => Reached s₀ P os s K
  | .error e _ => Failure s₀ P e

theorem Foretold.bind (hp : Foretold s₀ P os Q (p s))
    (hf : ∀ a s₁, Reached s₀ P os s₁ Q → Foretold s₀ P os' K (f a s₁)) :
    Foretold s₀ P os' K ((p >>= f) s) := by
  cases hRun : p s with
  | ok a s₁ =>
    rw [hRun] at hp
    rw [bind_of_ok hRun]
    exact hf a s₁ hp
  | error e s₁ =>
    rw [hRun] at hp
    rw [bind_of_error hRun]
    exact hp

theorem Foretold.of_reached (h : Reached s₀ P os s Q) {r : EStateM.Result ParseError ParserState α}
    (hr : Foretold s Q os' K r) : Foretold s₀ P os' K r := by
  cases r with
  | ok a s₁ => exact h.trans hr
  | error e s₁ => exact h.failure hr

/-- What is done with the result consumes nothing. -/
theorem Foretold.map (hp : Foretold s₀ P os K (p s)) (g : α → β) :
    Foretold s₀ P os K ((do return g (← p) : Parser β) s) :=
  hp.bind fun _ _ h => h

theorem Foretold.spanFrom {first : Span} {g : Span → β} (h : Reached s₀ P os s K) :
    Foretold s₀ P os K ((do return g (← Parser.spanFrom first) : Parser β) s) := h

end GraphQLSyntax.Parser
