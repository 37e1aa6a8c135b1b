import GraphQLSyntax.Parser.State
import GraphQLSyntax.Proofs.Relocation.Node

/-!
# Parsers and relocation

A parser that reads tokens elsewhere does what it does with the tokens here, and its results are found there too. For
that no span may decide anything. All parsers are made of a few that have this property, and sequencing keeps it.
-/

set_option autoImplicit false

namespace GraphQLSyntax

section

variable (r : Relocation)

/-! ## Tokens, errors and states elsewhere -/

def Token.relocate (t : Token) : Token := ⟨t.kind, t.span.relocate r⟩

def Note.relocate (n : Note) : Note := ⟨n.kind, n.message, n.span.map (Span.relocate r)⟩

def Opener.relocate (o : Opener) : Opener := ⟨o.span.relocate r, o.enclosure⟩

/-- The notes of a lexical error belong to the kind of its token. -/
def ParseError.relocate (e : ParseError) : ParseError :=
  ⟨e.message, e.span.relocate r, e.kind,
    if e.kind = .lexical then e.notes else e.notes.map (Note.relocate r)⟩

def TokenStream.relocate (s : TokenStream) : TokenStream :=
  ⟨s.buffer.map (Token.relocate r), s.pending.map (Token.relocate r)⟩

def ParserState.relocate (s : ParserState) : ParserState :=
  ⟨s.stream.relocate r, s.openers.map (Opener.relocate r), s.depth, s.lastEnd.map r.position⟩

theorem Span.relocate_emptyAt (p : Position) : (emptyAt p).relocate r = emptyAt (r.position p) := by
  rw [emptyAt, relocate, r.file_none, emptyAt]

theorem ParserState.endSpan_relocate (s : ParserState) : (s.relocate r).endSpan = s.endSpan.relocate r := by
  obtain ⟨stream, openers, depth, lastEnd⟩ := s
  rw [endSpan, endSpan, Span.relocate_emptyAt]
  cases lastEnd with
  | none => exact congrArg Span.emptyAt r.position_origin.symm
  | some p => rfl

theorem ParserState.spanFrom_relocate (s : ParserState) (first : Span) :
    (s.relocate r).spanFrom (first.relocate r) = (s.spanFrom first).relocate r := by
  obtain ⟨stream, openers, depth, lastEnd⟩ := s
  cases lastEnd <;> rfl

theorem ParseError.relocate_unexpected (t : Token) (expected : Expected) :
    (unexpected t expected).relocate r = unexpected (t.relocate r) expected := by
  obtain ⟨kind, span⟩ := t
  cases kind <;> rfl

theorem Opener.relocate_unclosedError (o : Opener) (span : Span) :
    (o.unclosedError span).relocate r = (o.relocate r).unclosedError (span.relocate r) := rfl

/-! ## Streams -/

theorem TokenStream.relocate_fill (s : TokenStream) (count : Nat) :
    (s.relocate r).fill count = (s.fill count).relocate r := by
  simp only [fill, relocate, List.length_map, List.map_append, List.map_take, List.map_drop]

theorem TokenStream.relocate_peekNth (s : TokenStream) (n : Nat) :
    (s.relocate r).peekNth n = ((s.peekNth n).1.map (Token.relocate r), (s.peekNth n).2.relocate r) := by
  rw [peekNth, relocate_fill, peekNth]
  simp only [relocate, List.getElem?_map]

theorem TokenStream.relocate_consume (s : TokenStream) :
    (s.relocate r).consume = (s.consume.1.map (Token.relocate r), s.consume.2.relocate r) := by
  rw [consume, relocate_fill, consume]
  generalize s.fill 1 = filled
  obtain ⟨_ | ⟨t, buffer⟩, pending⟩ := filled <;> rfl

theorem TokenStream.relocate_isAtEnd (s : TokenStream) :
    (s.relocate r).isAtEnd = (s.isAtEnd.1, s.isAtEnd.2.relocate r) := by
  rw [isAtEnd, peek, relocate_peekNth, isAtEnd, peek]
  generalize s.peekNth 0 = peeked
  obtain ⟨_ | t, stream⟩ := peeked <;> rfl

theorem TokenStream.toList_relocate (s : TokenStream) :
    (s.relocate r).toList = s.toList.map (Token.relocate r) := by
  simp only [toList, relocate, List.map_append]

end

namespace Parser

variable {α β γ δ : Type}

/-! ## Results elsewhere -/

def relocateResult (r : Relocation) (g : α → β) :
    EStateM.Result ParseError ParserState α → EStateM.Result ParseError ParserState β
  | .ok a s => .ok (g a) (s.relocate r)
  | .error e s => .error (e.relocate r) (s.relocate r)

/-- One parser does elsewhere what another one does here. -/
def Follows (r : Relocation) (g : α → β) (p : Parser α) (q : Parser β) : Prop :=
  ∀ s, q (s.relocate r) = relocateResult r g (p s)

/-- A parser that does the same everywhere. -/
abbrev Relocates (r : Relocation) (g : α → α) (p : Parser α) : Prop := Follows r g p p

section

variable {r : Relocation} {g : α → β} {p : Parser α} {q : Parser β}

theorem Follows.pure (a : α) : Follows r g (pure a) (pure (g a)) := fun _ => rfl

theorem follows_throw (e : ParseError) : Follows r g (throw e) (throw (e.relocate r)) := fun _ => rfl

theorem Follows.bind {h : γ → δ} {f : α → Parser γ} {k : β → Parser δ} (hp : Follows r g p q)
    (hf : ∀ a, Follows r h (f a) (k (g a))) : Follows r h (p >>= f) (q >>= k) := by
  intro s
  change EStateM.bind q k (s.relocate r) = relocateResult r h (EStateM.bind p f s)
  rw [EStateM.bind, hp s, EStateM.bind]
  cases p s with
  | ok a s₁ => exact hf a s₁
  | error e s₁ => rfl

/-- What is made of a result is made of it elsewhere too. -/
theorem Follows.map {h : γ → δ} {f : α → γ} {k : β → δ} (hp : Follows r g p q)
    (hMade : ∀ a, h (f a) = k (g a)) :
    Follows r h (do return f (← p)) (do return k (← q)) := by
  apply hp.bind
  intro a
  rw [← hMade]
  exact .pure (f a)

theorem Follows.ite {p' : Parser α} {q' : Parser β} {b : Bool} (hp : Follows r g p q)
    (hp' : Follows r g p' q') : Follows r g (if b then p else p') (if b then q else q') := by
  cases b with
  | true => exact hp
  | false => exact hp'

/-- An error that is raised after a look. -/
theorem Follows.throwHere {h : γ → δ} {f : α → ParseError} {k : β → ParseError} (hp : Follows r g p q)
    (hMade : ∀ a, (f a).relocate r = k (g a)) :
    Follows r h (do throw (f (← p))) (do throw (k (← q))) := by
  apply hp.bind
  intro a
  rw [← hMade]
  exact follows_throw (f a)

end

variable (r : Relocation)

theorem relocates_get : Relocates r (ParserState.relocate r) get := fun _ => rfl

/-! ## Looking ahead and consuming -/

theorem relocates_peekNth (n : Nat) : Relocates r (Option.map (Token.relocate r)) (peekNth n) := by
  intro s
  rw [peekNth, peekNth]
  simp only [ParserState.relocate, TokenStream.relocate_peekNth]
  rfl

theorem relocates_peekKindNth (n : Nat) : Relocates r id (peekKindNth n) :=
  (relocates_peekNth r n).map fun t => by cases t <;> rfl

theorem relocates_peekKind : Relocates r id peekKind := relocates_peekKindNth r 0

theorem relocates_peekIs (p : Punctuator) : Relocates r id (peekIs p) :=
  (relocates_peekKind r).map fun _ => rfl

theorem relocates_peekIsWord (word : String) : Relocates r id (peekIsWord word) :=
  (relocates_peekKind r).map fun _ => rfl

theorem relocates_isAtEnd : Relocates r id isAtEnd := by
  intro s
  rw [isAtEnd, isAtEnd]
  simp only [ParserState.relocate, TokenStream.relocate_isAtEnd]
  rfl

theorem relocates_endSpan : Relocates r (Span.relocate r) endSpan :=
  (relocates_get r).map fun s => (s.endSpan_relocate r).symm

theorem relocates_peekSpan : Relocates r (Span.relocate r) peekSpan := by
  apply (relocates_peekNth r 0).bind
  intro t
  cases t with
  | none => exact relocates_endSpan r
  | some t => exact .pure t.span

theorem follows_spanFrom (first : Span) :
    Follows r (Span.relocate r) (spanFrom first) (spanFrom (first.relocate r)) :=
  (relocates_get r).map fun s => (s.spanFrom_relocate r first).symm

theorem relocates_unexpected (g : α → α) (expected : Expected) : Relocates r g (unexpected expected) := by
  apply (relocates_peekNth r 0).bind
  intro t
  cases t with
  | none => exact (relocates_endSpan r).throwHere fun _ => rfl
  | some t =>
    change Follows r g _ (throw (.unexpected (t.relocate r) expected))
    rw [← ParseError.relocate_unexpected]
    exact follows_throw _

theorem relocates_next : Relocates r (Token.relocate r) next := by
  intro s
  rw [next, next]
  simp only [ParserState.relocate, TokenStream.relocate_consume]
  generalize s.stream.consume = consumed
  obtain ⟨_ | t, stream⟩ := consumed
  · simp only [Option.map_none, relocateResult, ParseError.relocate, List.map_nil, ite_self]
    rw [← ParserState.endSpan_relocate]
    rfl
  · rfl

theorem relocates_expect (p : Punctuator) : Relocates r (Token.relocate r) (expect p) := by
  apply (relocates_peekIs r p).bind
  intro isNext
  exact .ite (relocates_next r) (relocates_unexpected r _ _)

theorem relocates_expectWord (word : String) : Relocates r (Span.relocate r) (expectWord word) := by
  apply (relocates_peekIsWord r word).bind
  intro isNext
  exact .ite ((relocates_next r).map fun _ => rfl) (relocates_unexpected r _ _)

theorem relocates_name : Relocates r (Name.relocate r) name := by
  apply (relocates_peekKind r).bind
  intro kind
  dsimp only [id_eq]
  cases kind.bind TokenKind.nameText? with
  | some text => exact (relocates_next r).map fun _ => rfl
  | none => exact relocates_unexpected r _ _

theorem relocates_expectEnd : Relocates r id expectEnd := by
  apply (relocates_isAtEnd r).bind
  intro atEnd
  cases atEnd with
  | true => exact .pure ()
  | false => exact relocates_unexpected r _ _

/-! ## Enclosures -/

theorem relocates_openEnclosure (e : Enclosure) : Relocates r (Span.relocate r) (openEnclosure e) := by
  apply (relocates_expect r e.opening).bind
  intro opening s
  rfl

theorem relocates_closeInnermost : Relocates r id closeInnermost := by
  intro s
  obtain ⟨stream, openers, depth, lastEnd⟩ := s
  change EStateM.Result.ok () _ = EStateM.Result.ok () _
  simp only [ParserState.relocate, List.map_tail]

theorem relocates_refuseEnd : Relocates r id refuseEnd := by
  apply (relocates_isAtEnd r).bind
  intro atEnd
  cases atEnd with
  | false => exact .pure ()
  | true =>
    apply (relocates_get r).bind
    rintro ⟨stream, _ | ⟨opener, openers⟩, depth, lastEnd⟩
    · exact .pure ()
    · apply (relocates_closeInnermost r).bind
      intro _
      exact (relocates_endSpan r).throwHere fun span => opener.relocate_unclosedError r span

theorem relocates_closeEnclosure (e : Enclosure) : Relocates r id (closeEnclosure e) := by
  apply (relocates_refuseEnd r).bind
  intro _
  apply (relocates_expect r e.closing).bind
  intro _
  exact relocates_closeInnermost r

theorem relocates_hasMore (e : Enclosure) : Relocates r id (hasMore e) := by
  apply (relocates_peekIs r e.closing).bind
  intro closes
  exact .ite (.pure false) ((relocates_isAtEnd r).map fun _ => rfl)

section

variable {r} {more : Parser Bool} {item : Parser α} {g : α → α}

theorem follows_collect (hMore : Relocates r id more) (hItem : Relocates r g item) (tokens : List Token) :
    ∀ items : List α, Follows r (List.map g) (collect more item tokens items)
      (collect more item (tokens.map (Token.relocate r)) (items.map g)) := by
  have hDone : ∀ items : List α,
      Follows r (List.map g) (pure items.reverse) (pure (items.map g).reverse) := by
    intro items
    rw [← List.map_reverse]
    exact .pure items.reverse
  induction tokens with
  | nil =>
    intro items
    apply hMore.bind
    intro goesOn
    exact .ite (hDone items) (hDone items)
  | cons t tokens ih =>
    intro items
    apply hMore.bind
    intro goesOn
    apply Follows.ite _ (hDone items)
    apply hItem.bind
    intro i
    exact ih (i :: items)

theorem relocates_repeatWhile (hMore : Relocates r id more) (hItem : Relocates r g item) :
    Relocates r (List.map g) (repeatWhile more item) := by
  apply (relocates_get r).bind
  intro s
  have hTokens : (s.relocate r).stream.toList = s.stream.toList.map (Token.relocate r) :=
    s.stream.toList_relocate r
  rw [hTokens]
  exact follows_collect hMore hItem s.stream.toList []

/-- Items and the span of the enclosure that they stand in. -/
def relocateEnclosed (r : Relocation) (g : α → α) (content : List α × Span) : List α × Span :=
  (content.1.map g, content.2.relocate r)

theorem follows_enclosureRest (e : Enclosure) (opening : Span) (hItem : Relocates r g item) :
    Follows r (relocateEnclosed r g)
      (do
        let items ← repeatWhile (hasMore e) item
        closeEnclosure e
        return (items, ← spanFrom opening))
      (do
        let items ← repeatWhile (hasMore e) item
        closeEnclosure e
        return (items, ← spanFrom (opening.relocate r))) := by
  apply (relocates_repeatWhile (relocates_hasMore r e) hItem).bind
  intro items
  apply (relocates_closeEnclosure r e).bind
  intro _
  exact (follows_spanFrom r opening).map fun _ => rfl

theorem relocates_enclosed (e : Enclosure) (hItem : Relocates r g item) :
    Relocates r (relocateEnclosed r g) (enclosed e item) := by
  apply (relocates_openEnclosure r e).bind
  intro opening
  exact follows_enclosureRest e opening hItem

theorem relocates_enclosedSome (e : Enclosure) (hItem : Relocates r g item) :
    Relocates r (relocateEnclosed r g) (enclosedSome e item) := by
  apply (relocates_openEnclosure r e).bind
  intro opening
  apply (relocates_peekIs r e.closing).bind
  intro closes
  cases closes with
  | false => exact follows_enclosureRest e opening hItem
  | true =>
    apply (relocates_next r).bind
    intro _
    exact (follows_spanFrom r opening).throwHere fun _ => rfl

/-! ## Nesting -/

theorem relocates_tooDeep : Relocates r g tooDeep :=
  (relocates_peekSpan r).throwHere fun _ => rfl

theorem relocates_nested {p : Parser α} (hp : Relocates r g p) : Relocates r g (nested p) := by
  intro s
  have hRun := hp { s with depth := s.depth + 1 }
  have hState : ({ s with depth := s.depth + 1 } : ParserState).relocate r =
      { s.relocate r with depth := (s.relocate r).depth + 1 } := rfl
  rw [hState] at hRun
  rw [nested, nested]
  change (if s.depth < maxDepth then _ else _) = _
  split
  · rw [hRun]
    cases p { s with depth := s.depth + 1 } <;> rfl
  · exact relocates_tooDeep s

end

end Parser

end GraphQLSyntax
