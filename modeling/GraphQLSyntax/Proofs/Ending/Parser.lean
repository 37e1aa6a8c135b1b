import GraphQLSyntax.Proofs.Faults.Enclosure

/-!
# Parsers and the end of the input

The input ends where no token is left, and also before a token that says so, whatever comes after it. A parser never
looks past that place. So it does the same before either of two endings, and when it fails, what it reports differs by
no more than the first tokens of the endings do.
-/

set_option autoImplicit false

namespace GraphQLSyntax

/-- Two ways in which the tokens may go on where the input ends. -/
structure Endings where
  left : List Token
  right : List Token
  left_end : front left = none
  right_end : front right = none

theorem front_append_endings (E : Endings) (ts : List Token) : front (ts ++ E.left) = front (ts ++ E.right) := by
  cases ts with
  | nil => exact E.left_end.trans E.right_end.symm
  | cons t ts => exact front_append E.left E.right

theorem head?_append_congr {us vs : List Token} (h : us.head? = vs.head?) (ts : List Token) :
    (ts ++ us).head? = (ts ++ vs).head? := by
  cases ts with
  | nil => exact h
  | cons t ts => rfl

namespace Parser

variable (E : Endings)

/-- Errors of one kind, which are the same error if both endings start alike. -/
structure SameFault (d e : ParseError) : Prop where
  variant : d.kind.ctorIdx = e.kind.ctorIdx
  eq : E.left.head? = E.right.head? → d = e

/-- States before the same tokens, after which each goes on with its own ending. -/
structure Alike (ts : List Token) (s s' : ParserState) : Prop where
  tokens : ∀ t ∈ ts, t.kind ≠ .endOfInput
  left : s.rest = ts ++ E.left
  right : s'.rest = ts ++ E.right
  openers : s'.openers = s.openers
  depth : s'.depth = s.depth
  lastEnd : s'.lastEnd = s.lastEnd

variable {E} {ts : List Token} {s s' : ParserState}

theorem SameFault.refl (e : ParseError) : SameFault E e e := ⟨rfl, fun _ => rfl⟩

namespace Alike

theorem endSpan (h : Alike E ts s s') : s'.endSpan = s.endSpan := by
  rw [ParserState.endSpan, h.lastEnd, ParserState.endSpan]

theorem spanFrom (h : Alike E ts s s') (first : Span) : s'.spanFrom first = s.spanFrom first := by
  rw [ParserState.spanFrom, h.lastEnd, ParserState.spanFrom]

/-- A look changes nothing but how the tokens are kept. -/
theorem of_moves {s₁ s₁' : ParserState} (h : Alike E ts s s') (hMoves : Moves s [] s₁)
    (hOpeners : s₁.openers = s.openers) (hMoves' : Moves s' [] s₁') (hOpeners' : s₁'.openers = s'.openers) :
    Alike E ts s₁ s₁' where
  tokens := h.tokens
  left := hMoves.rest.symm.trans h.left
  right := hMoves'.rest.symm.trans h.right
  openers := by rw [hOpeners', h.openers, hOpeners]
  depth := by rw [hMoves'.depth, h.depth, hMoves.depth]
  lastEnd := by
    rw [hMoves'.lastEnd, hMoves.lastEnd]
    exact h.lastEnd

end Alike

variable {α β : Type}

/-- Runs that end alike. -/
inductive Matches (E : Endings) :
    EStateM.Result ParseError ParserState α → EStateM.Result ParseError ParserState α → Prop
  | ok {a : α} {ts : List Token} {s s' : ParserState} : Alike E ts s s' → Matches E (.ok a s) (.ok a s')
  | error {d e : ParseError} {s s' : ParserState} : SameFault E d e → Matches E (.error d s) (.error e s')

/-- A parser that does the same before both endings. -/
def Agrees (E : Endings) (p : Parser α) : Prop :=
  ∀ ⦃ts s s'⦄, Alike E ts s s' → Matches E (p s) (p s')

/-- A parser that consumes a token whenever it succeeds. -/
def Consumes (p : Parser α) : Prop :=
  ∀ ⦃s s' : ParserState⦄ ⦃a : α⦄, p s = .ok a s' → s'.rest.length < s.rest.length

theorem Implements.consumes {room : Nat} {p : Parser α} {D : Production α} {stop : List Punctuator} {nest : α → Nat}
    {P : TokenKind → Prop} (hp : Implements room p D stop nest) (hFirst : StartsWith D P) : Consumes p := by
  intro s s' a h
  obtain ⟨ts, hMoves, hPhrase, -⟩ := hp.sound h
  obtain ⟨t, us, rfl, -⟩ := hFirst hPhrase
  rw [hMoves.rest, List.length_append, List.length_cons]
  omega

section

variable {p : Parser α} {f : α → Parser β}

theorem Matches.bind (hp : Matches E (p s) (p s')) (hf : ∀ a, Agrees E (f a)) :
    Matches E ((p >>= f) s) ((p >>= f) s') := by
  change Matches E (EStateM.bind p f s) (EStateM.bind p f s')
  unfold EStateM.bind
  generalize p s = r at hp ⊢
  generalize p s' = r' at hp ⊢
  cases hp with
  | ok h => exact hf _ h
  | error h => exact .error h

theorem Agrees.pure (a : α) : Agrees E (pure a) := fun _ _ _ h => .ok h

theorem agrees_throw (e : ParseError) : Agrees E (throw e : Parser α) := fun _ _ _ _ => .error (.refl e)

theorem Agrees.bind (hp : Agrees E p) (hf : ∀ a, Agrees E (f a)) : Agrees E (p >>= f) :=
  fun _ _ _ h => (hp h).bind hf

theorem Agrees.map (hp : Agrees E p) (g : α → β) : Agrees E (do return g (← p)) :=
  hp.bind fun a => .pure (g a)

theorem Agrees.ite {q : Parser α} {b : Bool} (hp : Agrees E p) (hq : Agrees E q) : Agrees E (if b then p else q) := by
  cases b with
  | true => exact hp
  | false => exact hq

/-! ## Looking ahead -/

theorem Alike.answer {a : List Token → α} (h : Alike E ts s s') (hp : Looks p a)
    (hSame : a (ts ++ E.left) = a (ts ++ E.right)) : Matches E (p s) (p s') := by
  obtain ⟨s₁, hRun, hMoves, hOpeners⟩ := hp s
  obtain ⟨s₁', hRun', hMoves', hOpeners'⟩ := hp s'
  rw [hRun, hRun', h.left, h.right, hSame]
  exact .ok (h.of_moves hMoves hOpeners hMoves' hOpeners')

/-- What a look tells is the same before both endings, and known to what is done next. -/
theorem Alike.look {a : List Token → α} (h : Alike E ts s s') (hp : Looks p a)
    (hSame : a (ts ++ E.left) = a (ts ++ E.right))
    (hf : ∀ s₁ s₁', Alike E ts s₁ s₁' → Matches E (f (a (ts ++ E.left)) s₁) (f (a (ts ++ E.left)) s₁')) :
    Matches E ((p >>= f) s) ((p >>= f) s') := by
  obtain ⟨s₁, hRun, hMoves, hOpeners⟩ := hp s
  obtain ⟨s₁', hRun', hMoves', hOpeners'⟩ := hp s'
  rw [bind_of_ok hRun, bind_of_ok hRun', h.left, h.right, ← hSame]
  exact hf s₁ s₁' (h.of_moves hMoves hOpeners hMoves' hOpeners')

/-- What depends on the kind of the next token, if the input does not end before it. -/
def OfFront (a : List Token → α) : Prop := ∀ ⦃us vs⦄, front us = front vs → a us = a vs

theorem agrees_look {a : List Token → α} (hp : Looks p a) (ha : OfFront a) : Agrees E p :=
  fun _ _ _ h => h.answer hp (ha (front_append_endings E _))

end

theorem ofFront_nextIs (q : Punctuator) : OfFront (nextIs q) := by
  intro us vs h
  rw [Bool.eq_iff_iff, nextIs_iff_front, nextIs_iff_front, h]

theorem ofFront_nextIsWord (word : String) : OfFront fun ts => nextKind ts == some (.name word) := by
  intro us vs h
  rw [Bool.eq_iff_iff, nextIsWord_iff_front, nextIsWord_iff_front, h]

theorem ofFront_isEnd : OfFront fun ts => isEnd (nextKind ts) := by
  intro us vs h
  rw [Bool.eq_iff_iff, isEnd_iff_front, isEnd_iff_front, h]

theorem ofFront_goesOn (e : Enclosure) : OfFront fun ts => goesOn e (nextKind ts) := by
  intro us vs h
  have hClosing : nextIs e.closing us = nextIs e.closing vs := ofFront_nextIs e.closing h
  have hEnd : isEnd (nextKind us) = isEnd (nextKind vs) := ofFront_isEnd h
  change (!nextIs e.closing us && !isEnd (nextKind us)) = (!nextIs e.closing vs && !isEnd (nextKind vs))
  rw [hClosing, hEnd]

theorem agrees_peekIs (q : Punctuator) : Agrees E (peekIs q) := agrees_look (looks_peekIs q) (ofFront_nextIs q)

theorem agrees_peekIsWord (word : String) : Agrees E (peekIsWord word) :=
  agrees_look (looks_peekIsWord word) (ofFront_nextIsWord word)

theorem agrees_isAtEnd : Agrees E isAtEnd := agrees_look looks_isAtEnd ofFront_isEnd

theorem agrees_spanFrom (first : Span) : Agrees E (spanFrom first) := by
  intro ts s s' h
  change Matches E (.ok (s.spanFrom first) s) (.ok (s'.spanFrom first) s')
  rw [h.spanFrom]
  exact .ok h

/-! ## Errors about the next token -/

/-- An error about the next token is of the same kind wherever that stands. -/
theorem agrees_throwHere {f : Span → ParseError} (hKind : ∀ a b, (f a).kind = (f b).kind) :
    Agrees E (do throw (f (← peekSpan)) : Parser α) := by
  intro ts s s' h
  obtain ⟨s₁, hRun, -⟩ := peekSpan_peeks s
  obtain ⟨s₁', hRun', -⟩ := peekSpan_peeks s'
  rw [bind_of_ok hRun, bind_of_ok hRun']
  refine .error ⟨congrArg ErrorKind.ctorIdx (hKind _ _), fun hHeads => ?_⟩
  rw [h.left, h.right, h.endSpan, head?_append_congr hHeads]

/-- What is said about the next token when something else was expected. -/
def complaint (s : ParserState) (expected : Expected) : ParseError :=
  match s.rest.head? with
  | some t => .unexpected t expected
  | none => .unexpectedEnd s.endSpan expected

theorem unexpected_error (expected : Expected) (s : ParserState) :
    ∃ s₁, (unexpected expected : Parser α) s = .error (complaint s expected) s₁ := by
  obtain ⟨s₁, hRun, hMoves⟩ := peekNth_peeks 0 s
  rw [← List.head?_eq_getElem?] at hRun
  rw [unexpected, bind_of_ok hRun, complaint]
  cases s.rest.head? with
  | some t => exact ⟨s₁, rfl⟩
  | none =>
    have hEnd : s₁.endSpan = s.endSpan := by
      rw [ParserState.endSpan, hMoves.lastEnd]
      rfl
    rw [← hEnd]
    exact ⟨s₁, rfl⟩

theorem unexpected_endOfInput {t : Token} (ht : t.kind = .endOfInput) (expected : Expected) :
    ParseError.unexpected t expected = .unexpectedEnd t.span expected := by
  unfold ParseError.unexpected
  rw [ht]

theorem kind_of_front_cons {t : Token} {us : List Token} (h : front (t :: us) = none) : t.kind = .endOfInput := by
  by_contra hKind
  rw [front_cons hKind] at h
  cases h

theorem complaint_kind_of_end {expected : Expected} (h : front s.rest = none) :
    (complaint s expected).kind = .unexpectedEnd expected.tokens := by
  unfold complaint
  cases hRest : s.rest with
  | nil => rfl
  | cons t us =>
    rw [hRest] at h
    rw [List.head?_cons]
    exact congrArg ParseError.kind (unexpected_endOfInput (kind_of_front_cons h) expected)

theorem agrees_unexpected (expected : Expected) : Agrees E (unexpected expected : Parser α) := by
  intro ts s s' h
  obtain ⟨s₁, hRun⟩ := unexpected_error (α := α) expected s
  obtain ⟨s₁', hRun'⟩ := unexpected_error (α := α) expected s'
  have hEq : (ts ++ E.left).head? = (ts ++ E.right).head? → complaint s expected = complaint s' expected := by
    intro hHeads
    rw [complaint, complaint, h.left, h.right, hHeads, h.endSpan]
  rw [hRun, hRun']
  refine .error ⟨?_, fun hHeads => hEq (head?_append_congr hHeads ts)⟩
  cases ts with
  | cons t ts => rw [hEq rfl]
  | nil =>
    rw [complaint_kind_of_end ((congrArg front h.left).trans E.left_end),
      complaint_kind_of_end ((congrArg front h.right).trans E.right_end)]

/-! ## Consuming -/

/-- A token before the endings is consumed. -/
theorem Alike.next {t : Token} (h : Alike E (t :: ts) s s') :
    ∃ s₁ s₁', Parser.next s = .ok t s₁ ∧ Parser.next s' = .ok t s₁' ∧ Alike E ts s₁ s₁' := by
  obtain ⟨stream, hRun, hRest⟩ := next_cons h.left
  obtain ⟨stream', hRun', hRest'⟩ := next_cons h.right
  exact ⟨_, _, hRun, hRun', {
    tokens := fun u hu => h.tokens u (.tail t hu)
    left := hRest
    right := hRest'
    openers := h.openers
    depth := h.depth
    lastEnd := rfl }⟩

/-- A token that a look has found is consumed. -/
theorem Alike.nextOf {k : TokenKind} (h : Alike E ts s s') (hFront : front (ts ++ E.left) = some k) :
    Matches E (Parser.next s) (Parser.next s') := by
  cases ts with
  | cons t ts =>
    obtain ⟨s₁, s₁', hRun, hRun', hAlike⟩ := h.next
    rw [hRun, hRun']
    exact .ok hAlike
  | nil =>
    rw [List.nil_append, E.left_end] at hFront
    cases hFront

/-- What depends on the kind of the next token is not told the end of the input from a token that marks it. -/
theorem agrees_onKind {f : Option TokenKind → Parser α} (hEnd : f (some .endOfInput) = f none)
    (hf : ∀ k ts s s', front (ts ++ E.left) = k → Alike E ts s s' → Matches E (f k s) (f k s')) :
    Agrees E (peekKind >>= f) := by
  have hFront : ∀ us, f (nextKind us) = f (front us) := by
    intro us
    cases us with
    | nil => rfl
    | cons t us =>
      by_cases hKind : t.kind = .endOfInput
      · rw [nextKind_cons, hKind, hEnd]
        simp [front, Option.filter, hKind]
      · rw [nextKind_cons, front_cons hKind]
  intro ts s s' h
  obtain ⟨s₁, hRun, hMoves, hOpeners⟩ := looks_peekKind s
  obtain ⟨s₁', hRun', hMoves', hOpeners'⟩ := looks_peekKind s'
  rw [bind_of_ok hRun, bind_of_ok hRun', hFront, hFront, h.left, h.right, ← front_append_endings E ts]
  exact hf _ ts s₁ s₁' rfl (h.of_moves hMoves hOpeners hMoves' hOpeners')

theorem agrees_onKindOnly {f : Option TokenKind → Parser α} (hEnd : f (some .endOfInput) = f none)
    (hf : ∀ k, Agrees E (f k)) : Agrees E (peekKind >>= f) :=
  agrees_onKind hEnd fun k _ _ _ _ h => hf k h

/-- What is said where the input ends when a token was consumed before anybody knew what it is. -/
def refusal (s : ParserState) (expected : Expected) : ParseError :=
  match s.rest.head? with
  | some t => .unexpected t expected
  | none => ⟨"unexpected end of input", s.endSpan, .unexpectedEnd [], []⟩

/-- Without a token the error is not the one that the token gets, but it is of the same variant. -/
theorem refusal_variant {expected : Expected} (h : front s.rest = none) :
    (refusal s expected).kind.ctorIdx = (ErrorKind.unexpectedEnd []).ctorIdx := by
  unfold refusal
  cases hRest : s.rest with
  | nil => rfl
  | cons t us =>
    rw [hRest] at h
    rw [List.head?_cons]
    exact congrArg (fun e => e.kind.ctorIdx) (unexpected_endOfInput (kind_of_front_cons h) expected)

theorem literal_error {f : Token → Parser α} {expected : Expected}
    (hEnd : ∀ span, f ⟨.endOfInput, span⟩ = throw (.unexpected ⟨.endOfInput, span⟩ expected))
    (hFront : front s.rest = none) : ∃ s₁, (next >>= f) s = .error (refusal s expected) s₁ := by
  unfold refusal
  cases hRest : s.rest with
  | nil =>
    obtain ⟨s₁, hRun⟩ := next_nil hRest
    exact ⟨s₁, bind_of_error hRun⟩
  | cons t us =>
    rw [hRest] at hFront
    obtain ⟨kind, span⟩ := t
    obtain rfl : kind = .endOfInput := kind_of_front_cons hFront
    obtain ⟨stream, hRun, -⟩ := next_cons hRest
    rw [bind_of_ok hRun, hEnd span]
    exact ⟨_, rfl⟩

/-- A literal is consumed whatever it is. What is made of the end of the input is an error. -/
theorem agrees_literal {f : Token → Parser α} (expected : Expected) (hf : ∀ t, Agrees E (f t))
    (hEnd : ∀ span, f ⟨.endOfInput, span⟩ = throw (.unexpected ⟨.endOfInput, span⟩ expected)) :
    Agrees E (next >>= f) := by
  intro ts s s' h
  cases ts with
  | cons t ts =>
    obtain ⟨s₁, s₁', hRun, hRun', hAlike⟩ := h.next
    rw [bind_of_ok hRun, bind_of_ok hRun']
    exact hf t hAlike
  | nil =>
    have hLeft : front s.rest = none := (congrArg front h.left).trans E.left_end
    have hRight : front s'.rest = none := (congrArg front h.right).trans E.right_end
    obtain ⟨s₁, hRun⟩ := literal_error hEnd hLeft
    obtain ⟨s₁', hRun'⟩ := literal_error hEnd hRight
    rw [hRun, hRun']
    refine .error ⟨(refusal_variant hLeft).trans (refusal_variant hRight).symm, fun hHeads => ?_⟩
    rw [refusal, refusal, h.left, h.right, List.nil_append, List.nil_append, hHeads, h.endSpan]

theorem agrees_expect (q : Punctuator) : Agrees E (expect q) := by
  intro ts s s' h
  refine h.look (looks_peekIs q) (ofFront_nextIs q (front_append_endings E ts)) ?_
  intro s₁ s₁' h₁
  cases hIs : nextIs q (ts ++ E.left) with
  | false => exact agrees_unexpected _ h₁
  | true => exact h₁.nextOf (nextIs_iff_front.mp hIs)

theorem agrees_expectWord (word : String) : Agrees E (expectWord word) := by
  intro ts s s' h
  refine h.look (looks_peekIsWord word) (ofFront_nextIsWord word (front_append_endings E ts)) ?_
  intro s₁ s₁' h₁
  cases hIs : nextKind (ts ++ E.left) == some (.name word) with
  | false => exact agrees_unexpected _ h₁
  | true => exact (h₁.nextOf (nextIsWord_iff_front.mp hIs)).bind fun t => .pure t.span

theorem agrees_name : Agrees E name := by
  apply agrees_onKind rfl
  intro k ts s s' hFront h
  cases hText : k.bind TokenKind.nameText? with
  | none => exact agrees_unexpected _ h
  | some text =>
    obtain ⟨kind, rfl, -⟩ := Option.bind_eq_some_iff.mp hText
    exact (h.nextOf hFront).bind fun t => .pure (Name.mk text t.span)

theorem agrees_expectEnd : Agrees E expectEnd := by
  apply agrees_isAtEnd.bind
  intro atEnd
  cases atEnd with
  | true => exact .pure ()
  | false => exact agrees_unexpected _

/-! ## Enclosures -/

theorem agrees_openEnclosure (e : Enclosure) : Agrees E (openEnclosure e) := by
  apply (agrees_expect e.opening).bind
  intro opening ts s s' h
  exact .ok { h with openers := congrArg (List.cons ⟨opening.span, e⟩) h.openers }

theorem agrees_closeInnermost : Agrees E closeInnermost := by
  intro ts s s' h
  exact .ok { h with openers := congrArg List.tail h.openers }

theorem agrees_refuseEnd : Agrees E refuseEnd := by
  apply agrees_isAtEnd.bind
  intro atEnd
  cases atEnd with
  | false => exact .pure ()
  | true =>
    intro ts s s' h
    obtain ⟨stream, openers, depth, lastEnd⟩ := s
    obtain ⟨stream', openers', depth', lastEnd'⟩ := s'
    obtain rfl : openers' = openers := h.openers
    obtain rfl : lastEnd' = lastEnd := h.lastEnd
    cases openers' with
    | nil => exact .ok h
    | cons opener openers => exact .error (.refl _)

theorem agrees_closeEnclosure (e : Enclosure) : Agrees E (closeEnclosure e) := by
  apply agrees_refuseEnd.bind
  intro _
  apply (agrees_expect e.closing).bind
  intro _
  exact agrees_closeInnermost

/-! ## Loops -/

section

variable {more : Parser Bool} {item : Parser α} {go : List Token → Bool}

theorem collect_done {s₁ : ParserState} (hMore : more s = .ok false s₁) (tokens : List Token) (items : List α) :
    collect more item tokens items s = .ok items.reverse s₁ := by
  unfold collect
  exact bind_of_ok hMore

/-- A loop stops where no token is left at the latest, so that it does not matter how many more rounds were allowed. -/
theorem collect_eq (hMore : Looks more go) (hStop : go [] = false) (hConsumes : Consumes item)
    {tokens tokens' : List Token} (items : List α) (hTokens : s.rest.length ≤ tokens.length) (hTokens' : s.rest.length ≤ tokens'.length) :
    collect more item tokens items s = collect more item tokens' items s := by
  induction tokens generalizing tokens' items s with
  | nil =>
    obtain ⟨s₁, hRun, -⟩ := hMore s
    rw [List.length_eq_zero_iff.mp (Nat.le_zero.mp hTokens), hStop] at hRun
    rw [collect_done hRun, collect_done hRun]
  | cons t tokens ih =>
    obtain ⟨s₁, hRun, hMoves, -⟩ := hMore s
    have hRest : s.rest = s₁.rest := hMoves.rest
    cases hGoes : go s.rest with
    | false =>
      rw [hGoes] at hRun
      rw [collect_done hRun, collect_done hRun]
    | true =>
      cases tokens' with
      | nil =>
        rw [List.length_eq_zero_iff.mp (Nat.le_zero.mp hTokens'), hStop] at hGoes
        cases hGoes
      | cons t' tokens' =>
        rw [collect, collect, bind_of_ok hRun, bind_of_ok hRun, hGoes, if_pos rfl, if_pos rfl]
        cases hItem : item s₁ with
        | error e s₂ => rw [bind_of_error hItem, bind_of_error hItem]
        | ok i s₂ =>
          rw [bind_of_ok hItem, bind_of_ok hItem]
          have hFewer := hConsumes hItem
          rw [← hRest] at hFewer
          exact ih (i :: items) (Nat.le_of_lt_succ (Nat.lt_of_lt_of_le hFewer hTokens))
            (Nat.le_of_lt_succ (Nat.lt_of_lt_of_le hFewer hTokens'))

theorem agrees_collect (hMore : Agrees E more) (hItem : Agrees E item) (tokens : List Token) (items : List α) :
    Agrees E (collect more item tokens items) := by
  induction tokens generalizing items with
  | nil =>
    apply hMore.bind
    intro goesOn
    exact .ite (.pure _) (.pure _)
  | cons t tokens ih =>
    apply hMore.bind
    intro goesOn
    apply Agrees.ite _ (.pure _)
    apply hItem.bind
    intro i
    exact ih (i :: items)

theorem agrees_repeatWhile (hMore : Looks more go) (hGo : OfFront go) (hStop : go [] = false) (hItem : Agrees E item)
    (hConsumes : Consumes item) : Agrees E (repeatWhile more item) := by
  intro ts s s' h
  change Matches E (collect more item s.rest [] s) (collect more item s'.rest [] s')
  have hLeft : s.rest.length ≤ (s.rest ++ s'.rest).length := by simp
  have hRight : s'.rest.length ≤ (s.rest ++ s'.rest).length := by simp
  rw [collect_eq hMore hStop hConsumes [] (Nat.le_refl _) hLeft,
    collect_eq hMore hStop hConsumes [] (Nat.le_refl _) hRight]
  exact agrees_collect (agrees_look hMore hGo) hItem _ [] h

theorem agrees_enclosureRest (e : Enclosure) (opening : Span) (hItem : Agrees E item) (hConsumes : Consumes item) :
    Agrees E (do
      let items ← repeatWhile (hasMore e) item
      closeEnclosure e
      return (items, ← spanFrom opening)) := by
  apply (agrees_repeatWhile (looks_hasMore e) (ofFront_goesOn e) (goesOn_of_front_none rfl) hItem hConsumes).bind
  intro items
  apply (agrees_closeEnclosure e).bind
  intro _
  exact (agrees_spanFrom opening).map _

theorem agrees_enclosed (e : Enclosure) (hItem : Agrees E item) (hConsumes : Consumes item) :
    Agrees E (enclosed e item) := by
  apply (agrees_openEnclosure e).bind
  intro opening
  exact agrees_enclosureRest e opening hItem hConsumes

theorem agrees_enclosedSome (e : Enclosure) (hItem : Agrees E item) (hConsumes : Consumes item) :
    Agrees E (enclosedSome e item) := by
  apply (agrees_openEnclosure e).bind
  intro opening ts s s' h
  refine h.look (looks_peekIs e.closing) (ofFront_nextIs e.closing (front_append_endings E ts)) ?_
  intro s₁ s₁' h₁
  cases hIs : nextIs e.closing (ts ++ E.left) with
  | false => exact agrees_enclosureRest e opening hItem hConsumes h₁
  | true =>
    refine (h₁.nextOf (nextIs_iff_front.mp hIs)).bind fun _ => ?_
    apply (agrees_spanFrom opening).bind
    intro span
    exact agrees_throw (e.emptyError span)

/-! ## Nesting -/

theorem agrees_tooDeep : Agrees E (tooDeep : Parser α) := agrees_throwHere fun _ _ => rfl

theorem agrees_nested {p : Parser α} (hp : Agrees E p) : Agrees E (nested p) := by
  intro ts s s' h
  have hDeeper : Alike E ts { s with depth := s.depth + 1 } { s' with depth := s'.depth + 1 } :=
    { h with depth := congrArg (· + 1) h.depth }
  have hRuns := hp hDeeper
  unfold nested
  rw [h.depth] at hRuns ⊢
  split
  · generalize p { s with depth := s.depth + 1 } = r at hRuns ⊢
    generalize p { s' with depth := s.depth + 1 } = r' at hRuns ⊢
    cases hRuns with
    | ok h₁ => exact .ok { h₁ with depth := congrArg (· - 1) h₁.depth }
    | error hFault => exact .error hFault
  · exact agrees_tooDeep h

end

end Parser

end GraphQLSyntax
