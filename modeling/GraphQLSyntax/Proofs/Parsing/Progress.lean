import GraphQLSyntax.Parser.State
import GraphQLSyntax.Proofs.Grammar.Phrase

/-!
# What parsers consume

A parser that succeeds has moved over some tokens. How a state keeps its tokens does not matter, only
which of them are left, and openers only matter for errors.
-/

set_option autoImplicit false

namespace GraphQLSyntax

/-- A literal that stands for something, or a token that is no literal. The end of the input is never
consumed. -/
def TokenKind.Readable : TokenKind → Prop
  | int raw => ∃ v, readInt64 raw.toList = .ok v
  | float raw => ∃ x, Binary64.ofText? raw.toList = some x ∧ x.isFinite = true
  | string raw => ∃ v, decodeStringLiteral raw = .ok v
  | punctuator _ | name _ | boolean _ | null => True
  | endOfInput | error _ _ => False

/-- The error of constructs that are nested too deep. -/
def ParseError.tooDeep (span : Span) : ParseError :=
  ⟨"maximum nesting depth exceeded", span, .invalidSyntax, []⟩

def nextKind (ts : List Token) : Option TokenKind := ts.head?.map Token.kind

@[simp] theorem nextKind_nil : nextKind [] = none := rfl

@[simp] theorem nextKind_cons (t : Token) (ts : List Token) : nextKind (t :: ts) = some t.kind := rfl

def nextIs (p : Punctuator) (ts : List Token) : Bool := nextKind ts == some (.punctuator p)

theorem nextIs_cons_iff {p : Punctuator} {t : Token} {ts : List Token} :
    nextIs p (t :: ts) = true ↔ t.Is p := by
  simp [nextIs, Token.Is]

theorem nextIs_cons_eq_false {p : Punctuator} {t : Token} {ts : List Token}
    (h : t.kind ≠ .punctuator p) : nextIs p (t :: ts) = false := by
  simpa [nextIs] using h

/-- None of the punctuators comes next. -/
def NotNext (stop : List Punctuator) (rest : List Token) : Prop :=
  ∀ p ∈ stop, nextIs p rest = false

theorem notNext_nil (rest : List Token) : NotNext [] rest := by
  intro p hp
  cases hp

theorem NotNext.mono {stop stop' : List Punctuator} {rest : List Token} (h : NotNext stop rest)
    (hSub : ∀ p ∈ stop', p ∈ stop) : NotNext stop' rest :=
  fun p hp => h p (hSub p hp)

namespace ParserState

def rest (s : ParserState) : List Token := s.stream.toList

/-- How many more levels of nesting there is room for. -/
def room (s : ParserState) : Nat := maxDepth - s.depth

theorem room_le (s : ParserState) : s.room ≤ maxDepth := Nat.sub_le _ _

end ParserState

structure Moves (s : ParserState) (ts : List Token) (s' : ParserState) : Prop where
  rest : s.rest = ts ++ s'.rest
  depth : s'.depth = s.depth
  lastEnd : s'.lastEnd = (ts.getLast?.map fun t => t.span.stop).or s.lastEnd
  readable : ∀ t ∈ ts, t.kind.Readable

namespace Moves

variable {s s' s'' : ParserState} {ts us : List Token}

theorem refl (s : ParserState) : Moves s [] s := ⟨rfl, rfl, rfl, by simp⟩

theorem trans (h : Moves s ts s') (h' : Moves s' us s'') : Moves s (ts ++ us) s'' where
  rest := by rw [h.rest, h'.rest, List.append_assoc]
  depth := h'.depth.trans h.depth
  lastEnd := by
    rw [h'.lastEnd, h.lastEnd, List.getLast?_append]
    cases us.getLast? <;> rfl
  readable t ht := (List.mem_append.mp ht).elim (h.readable t) (h'.readable t)

theorem room (h : Moves s ts s') : s'.room = s.room := by
  rw [ParserState.room, h.depth, ParserState.room]

theorem nextKind_eq (h : Moves s [] s') : nextKind s'.rest = nextKind s.rest := by
  rw [h.rest, List.nil_append]

end Moves

/-! ## Spans -/

/-- A span that starts where the first of some tokens does. -/
def Span.StartsOver (first : Span) (ts : List Token) : Prop :=
  ∃ t us, ts = t :: us ∧ first.start = t.span.start ∧ first.file = t.span.file

theorem Span.startsOver_token (t : Token) (us : List Token) : t.span.StartsOver (t :: us) :=
  ⟨t, us, rfl, rfl, rfl⟩

theorem Span.startsOver_spanOver {ts : List Token} (h : ts ≠ []) : (spanOver ts).StartsOver ts := by
  cases ts with
  | nil => exact absurd rfl h
  | cons t us => exact ⟨t, us, rfl, rfl, rfl⟩

theorem Span.StartsOver.append {first : Span} {ts : List Token} (h : first.StartsOver ts)
    (us : List Token) : first.StartsOver (ts ++ us) := by
  obtain ⟨t, vs, rfl, hStart, hFile⟩ := h
  exact ⟨t, vs ++ us, rfl, hStart, hFile⟩

theorem Moves.spanFrom {s s' : ParserState} {ts : List Token} {first : Span} (h : Moves s ts s')
    (hFirst : first.StartsOver ts) : s'.spanFrom first = spanOver ts := by
  obtain ⟨t, us, rfl, hStart, hFile⟩ := hFirst
  rw [ParserState.spanFrom, h.lastEnd, List.getLast?_cons, hStart, hFile]
  rfl

/-! ## Steps of a parser that succeeds -/

namespace Parser

variable {α β : Type} {p : Parser α} {f : α → Parser β} {s s' : ParserState} {a : α} {b : β}

theorem bind_eq_ok (h : (p >>= f) s = .ok b s') : ∃ a s₁, p s = .ok a s₁ ∧ f a s₁ = .ok b s' := by
  change EStateM.bind p f s = _ at h
  unfold EStateM.bind at h
  split at h
  · exact ⟨_, _, by assumption, h⟩
  · cases h

theorem bind_of_ok {s₁ : ParserState} (h : p s = .ok a s₁) : (p >>= f) s = f a s₁ := by
  change EStateM.bind p f s = _
  simp only [EStateM.bind, h]

theorem bind_of_error {e : ParseError} {s₁ : ParserState} (h : p s = .error e s₁) :
    (p >>= f) s = .error e s₁ := by
  change EStateM.bind p f s = _
  simp only [EStateM.bind, h]

/-- A parser that looks at what is left and consumes nothing. -/
def Peeks (p : Parser α) (s : ParserState) (a : α) : Prop :=
  ∃ s₁, p s = .ok a s₁ ∧ Moves s [] s₁

theorem Peeks.bind_eq_ok (hp : Peeks p s a) (h : (p >>= f) s = .ok b s') :
    ∃ s₁, Moves s [] s₁ ∧ f a s₁ = .ok b s' := by
  obtain ⟨s₁, hRun, hMoves⟩ := hp
  rw [bind_of_ok hRun] at h
  exact ⟨s₁, hMoves, h⟩

theorem Peeks.map (hp : Peeks p s a) (g : α → β) : Peeks (do return g (← p)) s (g a) := by
  obtain ⟨s₁, hRun, hMoves⟩ := hp
  exact ⟨s₁, bind_of_ok hRun, hMoves⟩

end Parser

/-! ## Streams -/

namespace TokenStream

theorem peekNth_fst (s : TokenStream) (n : Nat) : (s.peekNth n).1 = s.toList[n]? := by
  simp only [peekNth, fill, toList]
  rcases Nat.lt_or_ge n s.buffer.length with hBuffer | hPending
  · rw [List.getElem?_append_left hBuffer, List.getElem?_append_left hBuffer]
  · rw [List.getElem?_append_right hPending, List.getElem?_append_right hPending,
      List.getElem?_take_of_lt (by omega)]

theorem toList_peekNth (s : TokenStream) (n : Nat) : (s.peekNth n).2.toList = s.toList :=
  toList_fill s (n + 1)

theorem consume_eq (s : TokenStream) :
    s.consume.1 = s.toList.head? ∧ s.consume.2.toList = s.toList.tail := by
  rw [← toList_fill s 1, consume]
  generalize hFill : s.fill 1 = filled
  obtain ⟨buffer, pending⟩ := filled
  cases buffer with
  | cons t buffer => exact ⟨rfl, rfl⟩
  | nil =>
    have hNone : pending = [] := by
      have hBuffer : s.buffer ++ s.pending.take (1 - s.buffer.length) = [] :=
        congrArg TokenStream.buffer hFill
      have hPending : s.pending.drop (1 - s.buffer.length) = pending :=
        congrArg TokenStream.pending hFill
      obtain ⟨hOld, hTake⟩ := List.append_eq_nil_iff.mp hBuffer
      rw [hOld] at hTake hPending
      cases hs : s.pending with
      | nil => simpa [hs] using hPending.symm
      | cons t ts => simp [hs] at hTake
    subst hNone
    exact ⟨rfl, rfl⟩

end TokenStream

/-! ## Looking ahead and consuming -/

namespace Parser

variable {β : Type} {s s' : ParserState} {b : β}

theorem peekNth_peeks (n : Nat) (s : ParserState) : Peeks (peekNth n) s s.rest[n]? := by
  refine ⟨{ s with stream := (s.stream.peekNth n).2 }, ?_, ?_, rfl, rfl, by simp⟩
  · rw [ParserState.rest, ← TokenStream.peekNth_fst]
    rfl
  · exact (TokenStream.toList_peekNth s.stream n).symm

theorem peekKindNth_peeks (n : Nat) (s : ParserState) :
    Peeks (peekKindNth n) s (s.rest[n]?.map Token.kind) :=
  (peekNth_peeks n s).map _

theorem peekKind_peeks (s : ParserState) : Peeks peekKind s (nextKind s.rest) := by
  have hPeeks := peekKindNth_peeks 0 s
  rwa [← List.head?_eq_getElem?] at hPeeks

theorem peekIs_peeks (p : Punctuator) (s : ParserState) : Peeks (peekIs p) s (nextIs p s.rest) :=
  (peekKind_peeks s).map _

theorem peekIsWord_peeks (word : String) (s : ParserState) :
    Peeks (peekIsWord word) s (nextKind s.rest == some (.name word)) :=
  (peekKind_peeks s).map _

def isEnd : Option TokenKind → Bool
  | none => true
  | some k => k == .endOfInput

theorem isAtEnd_peeks (s : ParserState) : Peeks isAtEnd s (isEnd (nextKind s.rest)) := by
  have hFirst := TokenStream.peekNth_fst s.stream 0
  have hList := TokenStream.toList_peekNth s.stream 0
  rw [← List.head?_eq_getElem?] at hFirst
  rw [ParserState.rest, nextKind, ← hFirst]
  refine ⟨{ s with stream := (s.stream.peekNth 0).2 }, ?_, hList.symm, rfl, rfl, by simp⟩
  simp only [isAtEnd, TokenStream.isAtEnd, TokenStream.peek]
  rcases s.stream.peekNth 0 with ⟨_ | t, stream⟩ <;> rfl

/-- Where an error about the next token stands, or about the end of the tokens. -/
theorem peekSpan_peeks (s : ParserState) : Peeks peekSpan s ((s.rest.head?.map Token.span).getD s.endSpan) := by
  obtain ⟨s₁, hRun, hMoves⟩ := peekNth_peeks 0 s
  rw [← List.head?_eq_getElem?] at hRun
  refine ⟨s₁, ?_, hMoves⟩
  rw [peekSpan, bind_of_ok hRun]
  cases s.rest.head? with
  | some t => rfl
  | none =>
    change EStateM.Result.ok s₁.endSpan s₁ = _
    rw [ParserState.endSpan, hMoves.lastEnd]
    rfl

theorem next_cons {t : Token} {us : List Token} (hRest : s.rest = t :: us) :
    ∃ stream, next s = .ok t { s with stream, lastEnd := some t.span.stop } ∧ stream.toList = us := by
  obtain ⟨hFirst, hTail⟩ := TokenStream.consume_eq s.stream
  rw [← ParserState.rest, hRest] at hFirst hTail
  refine ⟨s.stream.consume.2, ?_, hTail⟩
  rw [next]
  generalize s.stream.consume = consumed at hFirst
  obtain ⟨first, stream⟩ := consumed
  cases hFirst
  rfl

/-- Consuming a token that is there. -/
theorem next_of_cons {t : Token} {us : List Token} (hRest : s.rest = t :: us)
    (hReadable : t.kind.Readable) : ∃ s₁, next s = .ok t s₁ ∧ Moves s [t] s₁ := by
  obtain ⟨stream, hRun, hList⟩ := next_cons hRest
  refine ⟨_, hRun, ?_, rfl, rfl, ?_⟩
  · rw [hRest, ← hList]
    rfl
  · simpa using hReadable

theorem next_eq_ok {t : Token} (h : next s = .ok t s') :
    s.rest = t :: s'.rest ∧ (t.kind.Readable → Moves s [t] s') := by
  obtain ⟨hFirst, hTail⟩ := TokenStream.consume_eq s.stream
  rw [next] at h
  generalize hConsume : s.stream.consume = consumed at h hFirst hTail
  obtain ⟨_ | first, stream⟩ := consumed
  · cases h
  · cases h
    have hRest : s.rest = t :: stream.toList := by
      rw [ParserState.rest, hTail]
      cases hList : s.stream.toList with
      | nil => simp [hList] at hFirst
      | cons u us =>
        rw [hList] at hFirst
        cases hFirst
        rfl
    exact ⟨hRest, fun hReadable => ⟨hRest, rfl, rfl, by simpa using hReadable⟩⟩

end Parser

end GraphQLSyntax
