import GraphQLSyntax.Proofs.Faults.Steps

/-!
# The cause of an error

An error is about the next token, about the end of the input if nothing else is left, or about a token before them that
opens an empty construct. A fault of the text is only ever reported as what it is, unless there is no room for another
construct in front of it.
-/

set_option autoImplicit false

namespace GraphQLSyntax

/-- The input ends where more was expected, or where a delimiter is still open. -/
def ErrorKind.isAtEnd : ErrorKind → Bool
  | .unexpectedEnd _ | .unclosedDelimiter _ => true
  | _ => false

/-- None of the notes points at a place of the text. -/
def ParseError.Placeless (e : ParseError) : Prop := ∀ note ∈ e.notes, note.span = none

theorem placeless_of_nil {e : ParseError} (h : e.notes = []) : e.Placeless := by
  intro note hNote
  rw [h] at hNote
  cases hNote

theorem placeless_spec {message url : String} {span : Span} {kind : ErrorKind} :
    (⟨message, span, kind, [.spec url]⟩ : ParseError).Placeless := by
  simp [ParseError.Placeless, Note.spec]

namespace Parser

/-- Where the next token stands, or where the last one ends if none is left. -/
def frontSpan (s : ParserState) (ts : List Token) : List Token → Span
  | [] => .emptyAt (endAfter s ts)
  | t :: _ => t.span

/-- What an error is about once the tokens before the rest are consumed. -/
inductive Cause (s : ParserState) (ts : List Token) : List Token → ParseError → Prop
  | fault {t : Token} {us : List Token} {message : String} {notes : List Note} :
    t.kind = .error message notes → Cause s ts (t :: us) (.ofLexical message t.span notes)
  | next {t : Token} {us : List Token} {e : ParseError} : t.kind.isError = false → t.kind ≠ .endOfInput →
    e.kind.isAtEnd = false → e.span = t.span → e.Placeless → Cause s ts (t :: us) e
  | consumed {t : Token} {us : List Token} {e : ParseError} : t ∈ ts → e.kind.isAtEnd = false →
    e.span.start = t.span.start → e.span.stop = endAfter s ts → e.Placeless → Cause s ts us e
  | ended {us : List Token} {e : ParseError} {expected : List String} : front us = none →
    e.kind = .unexpectedEnd expected → e.span = frontSpan s ts us → e.Placeless → Cause s ts us e
  | unclosed {us : List Token} {o : Opener} : front us = none →
    Cause s ts us (o.unclosedError (.emptyAt (endAfter s ts)))
  | deep {us : List Token} : Cause s ts us (.tooDeep (frontSpan s ts us))

/-- An error that arises after some of the tokens, all of which can be read. -/
def Caused (s : ParserState) (e : ParseError) : Prop :=
  ∃ ts us, s.rest = ts ++ us ∧ (∀ t ∈ ts, t.kind.Readable) ∧ Cause s ts us e

section

variable {s s₁ : ParserState} {ts us vs : List Token} {e : ParseError}

theorem endAfter_moves (h : Moves s ts s₁) (us : List Token) : endAfter s₁ us = endAfter s (ts ++ us) := by
  rw [endAfter, h.lastEnd, endAfter, List.getLast?_append]
  cases us.getLast? <;> rfl

theorem frontSpan_congr (hEnd : endAfter s₁ us = endAfter s ts) (vs : List Token) :
    frontSpan s₁ us vs = frontSpan s ts vs := by
  cases vs with
  | nil => rw [frontSpan, hEnd, frontSpan]
  | cons t vs => rfl

/-- A cause only depends on where the last token ends, and on which tokens are consumed. -/
theorem Cause.mono (hCause : Cause s₁ us vs e) (hEnd : endAfter s₁ us = endAfter s ts)
    (hSub : ∀ t ∈ us, t ∈ ts) : Cause s ts vs e := by
  cases hCause with
  | fault hKind => exact .fault hKind
  | next hError hEnd hKind hSpan hNotes => exact .next hError hEnd hKind hSpan hNotes
  | consumed ht hKind hStart hStop hNotes => exact .consumed (hSub _ ht) hKind hStart (hStop.trans hEnd) hNotes
  | ended hFront hKind hSpan hNotes => exact .ended hFront hKind (hSpan.trans (frontSpan_congr hEnd vs)) hNotes
  | unclosed hFront =>
    rw [hEnd]
    exact .unclosed hFront
  | deep =>
    rw [frontSpan_congr hEnd]
    exact .deep

theorem Caused.of_moves (h : Moves s ts s₁) (hCaused : Caused s₁ e) : Caused s e := by
  obtain ⟨us, vs, hRest, hReadable, hCause⟩ := hCaused
  have hHere : Cause s (ts ++ us) vs e :=
    hCause.mono (endAfter_moves h us) fun _ => List.mem_append_right ts
  refine ⟨ts ++ us, vs, ?_, List.forall_mem_append.mpr ⟨h.readable, hReadable⟩, hHere⟩
  rw [h.rest, hRest, List.append_assoc]

theorem Cause.caused (h : Cause s [] us e) (hRest : s.rest = us) : Caused s e := ⟨[], us, hRest, by simp, h⟩

theorem cause_unexpected (t : Token) (us : List Token) (expected : Expected) :
    Cause s ts (t :: us) (.unexpected t expected) := by
  unfold ParseError.unexpected
  split
  · rename_i hKind
    exact .fault hKind
  · rename_i hKind
    refine .ended ?_ rfl rfl (placeless_of_nil rfl)
    rw [front, nextKind_cons, hKind]
    rfl
  · rename_i hError hEnd
    refine .next ?_ hEnd rfl rfl (placeless_of_nil rfl)
    cases hKind : t.kind with
    | error message notes => exact absurd hKind (hError message notes)
    | _ => rfl

end

/-! ## Runs -/

variable {α β : Type} {p : Parser α} {f : α → Parser β} {s s₁ : ParserState} {t : Token} {ts us : List Token}

/-- A run moves over tokens that can be read, or its error has a cause. -/
def Accounted (s : ParserState) : EStateM.Result ParseError ParserState α → Prop
  | .ok _ s' => ∃ ts, Moves s ts s'
  | .error e _ => Caused s e

def Accounts (p : Parser α) : Prop := ∀ s, Accounted s (p s)

theorem Accounted.of_moves (h : Moves s ts s₁) {r : EStateM.Result ParseError ParserState α}
    (hr : Accounted s₁ r) : Accounted s r := by
  cases r with
  | ok a s' =>
    obtain ⟨us, hMoves⟩ := hr
    exact ⟨ts ++ us, h.trans hMoves⟩
  | error e s' => exact Caused.of_moves h hr

theorem Accounted.bind (hp : Accounted s (p s)) (hf : ∀ a s₁, p s = .ok a s₁ → Accounted s₁ (f a s₁)) :
    Accounted s ((p >>= f) s) := by
  cases hRun : p s with
  | ok a s₁ =>
    rw [hRun] at hp
    obtain ⟨ts, hMoves⟩ := hp
    rw [bind_of_ok hRun]
    exact (hf a s₁ hRun).of_moves hMoves
  | error e s₁ =>
    rw [hRun] at hp
    rw [bind_of_error hRun]
    exact hp

theorem Accounts.pure (a : α) : Accounts (pure a) := fun s => ⟨[], .refl s⟩

theorem Accounts.bind (hp : Accounts p) (hf : ∀ a, Accounts (f a)) : Accounts (p >>= f) :=
  fun s => (hp s).bind fun a s₁ _ => hf a s₁

theorem Accounts.map (hp : Accounts p) (g : α → β) : Accounts (do return g (← p)) :=
  hp.bind fun a => .pure (g a)

theorem Accounts.ite {p q : Parser α} {b : Bool} (hp : Accounts p) (hq : Accounts q) :
    Accounts (if b then p else q) := by
  cases b with
  | true => exact hp
  | false => exact hq

/-- What is done next may depend on what comes next. -/
theorem Accounts.look {a : List Token → α} (hp : ∀ s, Peeks p s (a s.rest))
    (hf : ∀ s, Accounted s (f (a s.rest) s)) : Accounts (p >>= f) := by
  intro s
  obtain ⟨s₁, hRun, hMoves⟩ := hp s
  have hRest : s₁.rest = s.rest := by rw [hMoves.rest, List.nil_append]
  rw [bind_of_ok hRun, ← hRest]
  exact (hf s₁).of_moves hMoves

theorem accounts_of_peeks {a : ParserState → α} (hp : ∀ s, Peeks p s (a s)) : Accounts p := by
  intro s
  obtain ⟨s₁, hRun, hMoves⟩ := hp s
  rw [hRun]
  exact ⟨[], hMoves⟩

theorem accounts_spanFrom (first : Span) : Accounts (spanFrom first) := fun s => ⟨[], .refl s⟩

/-! ## Steps -/

theorem accounts_peekIs (q : Punctuator) : Accounts (peekIs q) := accounts_of_peeks (peekIs_peeks q)

theorem accounts_peekIsWord (word : String) : Accounts (peekIsWord word) :=
  accounts_of_peeks (peekIsWord_peeks word)

theorem accounts_unexpected (expected : Expected) : Accounts (unexpected expected : Parser α) := by
  apply Accounts.look (a := fun ts => ts[0]?) (peekNth_peeks 0)
  intro s
  cases hRest : s.rest with
  | nil =>
    have hCause : Cause s [] [] (.unexpectedEnd s.endSpan expected) :=
      .ended rfl rfl rfl (placeless_of_nil rfl)
    exact hCause.caused hRest
  | cons t us => exact (cause_unexpected t us expected).caused hRest

theorem peekSpan_run (s : ParserState) : ∃ s₁, peekSpan s = .ok (frontSpan s [] s.rest) s₁ := by
  obtain ⟨s₁, hRun, -⟩ := peekSpan_peeks s
  refine ⟨s₁, ?_⟩
  rw [hRun]
  cases s.rest <;> rfl

/-- The next token is refused, whatever could be made of it. -/
theorem accounted_refuse {k : TokenKind} {e : Span → ParseError} (hNext : nextKind s.rest = some k)
    (hError : k.isError = false) (hEnd : k ≠ .endOfInput) (hKind : ∀ span, (e span).kind.isAtEnd = false)
    (hSpan : ∀ span, (e span).span = span) (hNotes : ∀ span, (e span).Placeless) :
    Accounted s ((do throw (e (← peekSpan)) : Parser α) s) := by
  obtain ⟨s₁, hRun⟩ := peekSpan_run s
  cases hRest : s.rest with
  | nil =>
    rw [hRest] at hNext
    cases hNext
  | cons t us =>
    rw [hRest, nextKind_cons, Option.some.injEq] at hNext
    subst hNext
    rw [bind_of_ok hRun, hRest]
    have hCause : Cause s [] (t :: us) (e t.span) := .next hError hEnd (hKind _) (hSpan _) (hNotes _)
    exact hCause.caused hRest

theorem accounts_tooDeep : Accounts (tooDeep : Parser α) := by
  intro s
  obtain ⟨s₁, hRun⟩ := peekSpan_run s
  rw [tooDeep, bind_of_ok hRun]
  exact Cause.deep.caused rfl

theorem accounted_next (hRest : s.rest = t :: us) (hReadable : t.kind.Readable) : Accounted s (next s) := by
  obtain ⟨s₁, hRun, hMoves⟩ := next_of_cons hRest hReadable
  rw [hRun]
  exact ⟨[t], hMoves⟩

/-- A token of a kind that can be read. -/
theorem accounted_next_of_kind {k : TokenKind} (hKind : nextKind s.rest = some k) (hReadable : k.Readable) :
    Accounted s (next s) := by
  cases hRest : s.rest with
  | nil =>
    rw [hRest] at hKind
    cases hKind
  | cons t us =>
    rw [hRest, nextKind_cons, Option.some.injEq] at hKind
    exact accounted_next hRest (hKind ▸ hReadable)

theorem accounts_expect (q : Punctuator) : Accounts (expect q) := by
  intro s
  obtain ⟨t, s₁, hRun, -, hMoves, -⟩ | ⟨-, s₁, hRun, hMoves, -⟩ := expect_run q s
  · rw [hRun]
    exact ⟨[t], hMoves⟩
  · rw [hRun]
    exact (accounts_unexpected _ s₁).of_moves hMoves

theorem accounts_expectWord (word : String) : Accounts (expectWord word) := by
  apply Accounts.look (a := fun ts => nextKind ts == some (.name word)) (peekIsWord_peeks word)
  intro s
  split
  · rename_i hIs
    have hNext : Accounted s (next s) := accounted_next_of_kind (beq_iff_eq.mp hIs) trivial
    exact hNext.bind fun t s₁ _ => Accounts.pure t.span s₁
  · exact accounts_unexpected _ s

theorem accounts_name : Accounts name := by
  apply Accounts.look peekKind_peeks
  intro s
  cases hText : (nextKind s.rest).bind TokenKind.nameText? with
  | none => exact accounts_unexpected _ s
  | some text =>
    obtain ⟨k, hKind, hName⟩ := Option.bind_eq_some_iff.mp hText
    have hReadable : k.Readable := readable_of_isNameKind (by rw [isNameKind, hName]; rfl)
    exact (accounted_next_of_kind hKind hReadable).bind fun t s₁ _ => Accounts.pure _ s₁

theorem accounts_expectEnd : Accounts expectEnd := by
  apply Accounts.look (a := fun ts => isEnd (nextKind ts)) isAtEnd_peeks
  intro s
  split
  · exact Accounts.pure () s
  · exact accounts_unexpected _ s

/-- A token is consumed first and looked at afterwards. -/
theorem Accounts.literal {f : Token → Parser β}
    (hf : ∀ t, (t.kind.Readable ∧ ∃ b, f t = Pure.pure b) ∨
      ∃ e, f t = throw e ∧ ∀ s us, Cause s [] (t :: us) e) : Accounts (Parser.next >>= f) := by
  intro s
  cases hRest : s.rest with
  | nil =>
    obtain ⟨s₁, hRun⟩ := next_nil hRest
    rw [bind_of_error hRun]
    have hCause : Cause s [] [] ⟨"unexpected end of input", s.endSpan, .unexpectedEnd [], []⟩ :=
      .ended rfl rfl rfl (placeless_of_nil rfl)
    exact hCause.caused hRest
  | cons t us =>
    obtain ⟨s₁, hRun, -, -, hMoves⟩ := next_run hRest
    rw [bind_of_ok hRun]
    obtain ⟨hReadable, b, hRead⟩ | ⟨e, hRefused, hCause⟩ := hf t
    · rw [hRead]
      exact ⟨[t], hMoves hReadable⟩
    · rw [hRefused]
      exact (hCause s us).caused hRest

/-! ## Enclosures and levels -/

theorem accounts_openEnclosure (e : Enclosure) : Accounts (openEnclosure e) :=
  (accounts_expect e.opening).bind fun _ s => ⟨[], moves_openers (.refl s) _⟩

theorem accounts_refuseEnd : Accounts refuseEnd := by
  apply Accounts.look (a := fun ts => isEnd (nextKind ts)) isAtEnd_peeks
  intro s
  split
  · rename_i hEnd
    have hGet : (get : Parser ParserState) s = .ok s s := rfl
    rw [bind_of_ok hGet]
    cases s.openers with
    | nil => exact ⟨[], .refl s⟩
    | cons opener openers =>
      have hCause : Cause s [] s.rest (opener.unclosedError (.emptyAt (endAfter s []))) :=
        .unclosed ((isEnd_iff_front _).mp hEnd)
      exact hCause.caused rfl
  · exact ⟨[], .refl s⟩

theorem accounts_closeEnclosure (e : Enclosure) : Accounts (closeEnclosure e) :=
  accounts_refuseEnd.bind fun _ => (accounts_expect e.closing).bind fun _ s => ⟨[], moves_openers (.refl s) _⟩

theorem accounts_hasMore (e : Enclosure) : Accounts (hasMore e) :=
  accounts_of_peeks (hasMore_peeks e)

section

variable {more : Parser Bool} {item : Parser α}

theorem accounts_collect (hMore : Accounts more) (hItem : Accounts item) (tokens : List Token) :
    ∀ items, Accounts (collect more item tokens items) := by
  induction tokens with
  | nil =>
    intro items
    rw [collect]
    exact hMore.bind fun _ => .ite (.pure _) (.pure _)
  | cons _ tokens ih =>
    intro items
    rw [collect]
    exact hMore.bind fun _ => .ite (hItem.bind fun i => ih (i :: items)) (.pure _)

theorem accounts_repeatWhile (hMore : Accounts more) (hItem : Accounts item) : Accounts (repeatWhile more item) :=
  fun s => accounts_collect hMore hItem s.stream.toList [] s

theorem accounts_enclosed (e : Enclosure) (hItem : Accounts item) : Accounts (enclosed e item) := by
  apply (accounts_openEnclosure e).bind
  intro opening
  apply (accounts_repeatWhile (accounts_hasMore e) hItem).bind
  intro items
  apply (accounts_closeEnclosure e).bind
  intro _
  exact (accounts_spanFrom opening).map _

/-- The error of an empty enclosure starts with its opening punctuator, which is consumed. -/
theorem accounts_enclosedSome (e : Enclosure) (hItem : Accounts item) : Accounts (enclosedSome e item) := by
  intro s
  cases hRun : openEnclosure e s with
  | error x s₁ =>
    have hOpen := accounts_openEnclosure e s
    rw [hRun] at hOpen
    rw [enclosedSome, bind_of_error hRun]
    exact hOpen
  | ok opening s₁ =>
    obtain ⟨first, _, hFirst, hIs, hPure⟩ := openEnclosure_bind_eq_ok (f := pure) (bind_of_ok hRun)
    cases hPure
    obtain ⟨s₂, hPeekRun, hPeek⟩ := peekIs_peeks e.closing s₁
    rw [enclosedSome, bind_of_ok hRun, bind_of_ok hPeekRun]
    have hMoves : Moves s [first] s₂ := hFirst.trans hPeek
    split
    · rename_i hClosing
      cases hRest : s₁.rest with
      | nil =>
        rw [hRest] at hClosing
        cases hClosing
      | cons last us =>
        -- The closing punctuator is consumed too before the error is thrown.
        rw [hRest, nextIs_cons_iff] at hClosing
        have hReadable : last.kind.Readable := by
          rw [hClosing]
          trivial
        have hRest₂ : s₂.rest = last :: us := by rw [← hRest, hPeek.rest, List.nil_append]
        obtain ⟨s₃, hNext, hLast⟩ := next_of_cons hRest₂ hReadable
        rw [bind_of_ok hNext]
        have hAll := hMoves.trans hLast
        have hStop : s₃.lastEnd.getD first.span.stop = endAfter s ([first] ++ [last]) := by
          rw [hAll.lastEnd]
          rfl
        exact ⟨_, _, hAll.rest, hAll.readable, .consumed (.head _) rfl rfl hStop (placeless_of_nil rfl)⟩
    · have hItems : Accounts (do
          let items ← repeatWhile (hasMore e) item
          closeEnclosure e
          return (items, ← spanFrom first.span)) := by
        apply (accounts_repeatWhile (accounts_hasMore e) hItem).bind
        intro items
        apply (accounts_closeEnclosure e).bind
        intro _
        exact (accounts_spanFrom first.span).map _
      exact (hItems s₂).of_moves hMoves

end

theorem Accounts.nested (hp : Accounts p) : Accounts (nested p) := by
  intro s
  unfold Parser.nested
  split
  · have hRun := hp { s with depth := s.depth + 1 }
    cases hResult : p { s with depth := s.depth + 1 } with
    | ok a s₁ =>
      rw [hResult] at hRun
      obtain ⟨ts, hMoves⟩ := hRun
      have hBack : s₁.depth = s.depth + 1 := hMoves.depth
      exact ⟨ts, hMoves.rest, by simp [hBack], hMoves.lastEnd, hMoves.readable⟩
    | error e s₁ =>
      rw [hResult] at hRun
      obtain ⟨ts, us, hRest, hReadable, hCause⟩ := hRun
      exact ⟨ts, us, hRest, hReadable, hCause.mono rfl fun _ => id⟩
  · exact accounts_tooDeep s

end Parser

end GraphQLSyntax
