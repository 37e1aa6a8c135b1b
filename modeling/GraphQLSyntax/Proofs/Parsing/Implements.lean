import GraphQLSyntax.Proofs.Grammar.Nesting
import GraphQLSyntax.Proofs.Parsing.Progress

/-!
# Parsers of a production

A parser implements a production if what it consumes is always a phrase of the production, and if it
takes every phrase that stands at the front of what is left, unless there is no room for its nesting.
Where a phrase could go on, what follows it must not go on with it.
-/

set_option autoImplicit false

namespace GraphQLSyntax.Parser

variable {α β : Type} {p : Parser α} {f : α → Parser β} {s s' : ParserState} {a : α} {b : β}
  {ts us rest : List Token} {m n : Nat}

/-- The parser takes the tokens at the front and makes a node of them, or says that there is no room. -/
def Accepts (p : Parser α) (s : ParserState) (ts rest : List Token) (a : α) (n : Nat) : Prop :=
  s.rest = ts ++ rest → (∀ t ∈ ts, t.kind.Readable) →
    (∃ s', p s = .ok a s' ∧ Moves s ts s') ∨ (s.room < n ∧ ∃ span s', p s = .error (.tooDeep span) s')

theorem Accepts.mono (h : Accepts p s ts rest a m) (hm : m ≤ n) : Accepts p s ts rest a n := by
  intro hRest hReadable
  obtain hOk | ⟨hRoom, hError⟩ := h hRest hReadable
  · exact .inl hOk
  · exact .inr ⟨Nat.lt_of_lt_of_le hRoom hm, hError⟩

theorem Accepts.pure (a : α) (s : ParserState) (rest : List Token) (n : Nat) :
    Accepts (pure a) s [] rest a n :=
  fun _ _ => .inl ⟨s, rfl, .refl s⟩

theorem Accepts.bind (hp : Accepts p s ts (us ++ rest) a m) (hm : m ≤ n)
    (hf : ∀ s₁, Moves s ts s₁ → Accepts (f a) s₁ us rest b n) :
    Accepts (p >>= f) s (ts ++ us) rest b n := by
  intro hRest hReadable
  rw [List.append_assoc] at hRest
  obtain ⟨s₁, hRun, hMoves⟩ | ⟨hRoom, span, s₁, hRun⟩ :=
    hp hRest fun t ht => hReadable t (List.mem_append_left _ ht)
  · have hRest₁ : s₁.rest = us ++ rest := List.append_cancel_left (hMoves.rest.symm.trans hRest)
    rw [bind_of_ok hRun]
    obtain ⟨s₂, hRun₂, hMoves₂⟩ | ⟨hRoom, hError⟩ :=
      hf s₁ hMoves hRest₁ fun t ht => hReadable t (List.mem_append_right _ ht)
    · exact .inl ⟨s₂, hRun₂, hMoves.trans hMoves₂⟩
    · exact .inr ⟨hMoves.room ▸ hRoom, hError⟩
  · exact .inr ⟨Nat.lt_of_lt_of_le hRoom hm, span, s₁, bind_of_error hRun⟩

/-- What follows consumes no more tokens. -/
theorem Accepts.bind_last (hp : Accepts p s ts rest a m) (hm : m ≤ n)
    (hf : ∀ s₁, Moves s ts s₁ → Accepts (f a) s₁ [] rest b n) : Accepts (p >>= f) s ts rest b n := by
  have hAll := Accepts.bind hp hm hf
  rwa [List.append_nil] at hAll

theorem Accepts.bind_nil (hp : Accepts p s [] (us ++ rest) a m) (hm : m ≤ n)
    (hf : ∀ s₁, Moves s [] s₁ → Accepts (f a) s₁ us rest b n) : Accepts (p >>= f) s us rest b n :=
  hp.bind hm hf

theorem Accepts.bind_token {t : Token} (hp : Accepts p s [t] (us ++ rest) a m) (hm : m ≤ n)
    (hf : ∀ s₁, Moves s [t] s₁ → Accepts (f a) s₁ us rest b n) : Accepts (p >>= f) s (t :: us) rest b n :=
  hp.bind hm hf

theorem Accepts.peek {a : List Token → α} (hp : Peeks p s (a s.rest))
    (hf : ∀ s₁, Moves s [] s₁ → Accepts (f (a (ts ++ rest))) s₁ ts rest b n) :
    Accepts (p >>= f) s ts rest b n := by
  intro hRest hReadable
  obtain ⟨s₁, hRun, hMoves⟩ := hp
  rw [bind_of_ok hRun, hRest]
  obtain ⟨s₂, hRun₂, hMoves₂⟩ | ⟨hRoom, hError⟩ := hf s₁ hMoves (hMoves.rest.symm.trans hRest) hReadable
  · exact .inl ⟨s₂, hRun₂, hMoves.trans hMoves₂⟩
  · exact .inr ⟨hMoves.room ▸ hRoom, hError⟩

theorem Accepts.next {t : Token} {f : Token → Parser β}
    (hf : ∀ s₁, Moves s [t] s₁ → Accepts (f t) s₁ us rest b n) :
    Accepts (Parser.next >>= f) s (t :: us) rest b n :=
  Accepts.bind_token (m := 0)
    (fun hRest hReadable => .inl (next_of_cons hRest (hReadable t (List.mem_singleton.mpr rfl))))
    (Nat.zero_le n) hf

theorem Accepts.expect {t : Token} {q : Punctuator} {f : Token → Parser β} (ht : t.Is q)
    (hf : ∀ s₁, Moves s [t] s₁ → Accepts (f t) s₁ us rest b n) :
    Accepts (Parser.expect q >>= f) s (t :: us) rest b n := by
  refine Accepts.bind_token (m := 0) ?_ (Nat.zero_le n) hf
  rw [Parser.expect]
  refine Accepts.peek (peekIs_peeks q s) ?_
  intro s₁ _
  rw [List.singleton_append, if_pos (nextIs_cons_iff.mpr ht)]
  exact fun hRest hReadable => .inl (next_of_cons hRest (hReadable t (List.mem_singleton.mpr rfl)))

theorem unexpected_ne_ok (expected : Expected) (s s' : ParserState) (a : α) :
    unexpected expected s ≠ .ok a s' := by
  intro h
  rw [unexpected] at h
  obtain ⟨s₁, _, h⟩ := (peekNth_peeks 0 s).bind_eq_ok h
  cases hFirst : s.rest[0]? with
  | none =>
    rw [hFirst] at h
    cases h
  | some t =>
    rw [hFirst] at h
    cases h

theorem expect_bind_eq_ok {q : Punctuator} {f : Token → Parser β}
    (h : (expect q >>= f) s = .ok b s') :
    ∃ t s₁, Moves s [t] s₁ ∧ t.Is q ∧ f t s₁ = .ok b s' := by
  obtain ⟨t, s₂, hExpect, h⟩ := bind_eq_ok h
  rw [expect] at hExpect
  obtain ⟨s₁, hMoves, hExpect⟩ := (peekIs_peeks q s).bind_eq_ok hExpect
  split at hExpect
  · rename_i hIs
    obtain ⟨hRest, hNext⟩ := next_eq_ok hExpect
    have ht : t.Is q := by rwa [hMoves.rest, List.nil_append, hRest, nextIs_cons_iff] at hIs
    exact ⟨t, s₂, hMoves.trans (hNext (by rw [ht]; trivial)), ht, h⟩
  · exact absurd hExpect (unexpected_ne_ok _ _ _ _)

theorem spanFrom_eq_ok {first : Span} {g : Span → β}
    (h : (do return g (← spanFrom first) : Parser β) s = .ok b s') :
    s' = s ∧ b = g (s.spanFrom first) := by
  cases h
  exact ⟨rfl, rfl⟩

theorem Accepts.spanFrom {first span : Span} {g : Span → β} (hSpan : s.spanFrom first = span) :
    Accepts (do return g (← Parser.spanFrom first)) s [] rest (g span) n :=
  fun _ _ => .inl ⟨s, hSpan ▸ rfl, .refl s⟩

/-! ## Productions -/

/-- The parser takes just the phrases of the production that there is room for. What follows a phrase
starts with none of the punctuators that could go on with it. -/
structure Implements (room : Nat) (p : Parser α) (D : Production α) (stop : List Punctuator)
    (nest : α → Nat) : Prop where
  sound : ∀ {s s' : ParserState} {a : α}, p s = .ok a s' →
    ∃ ts, Moves s ts s' ∧ D ts a ∧ nest a ≤ s.room
  complete : ∀ {s : ParserState} {ts rest : List Token} {a : α}, s.room ≤ room → D ts a →
    NotNext stop rest → Accepts p s ts rest a (nest a)

variable {room : Nat} {D : Production α} {stop : List Punctuator} {nest : α → Nat}

theorem Implements.anti {room' : Nat} (hp : Implements room p D stop nest) (hRoom : room' ≤ room) :
    Implements room' p D stop nest where
  sound := hp.sound
  complete h := hp.complete (Nat.le_trans h hRoom)

theorem Implements.widen {stop' : List Punctuator} (hp : Implements room p D stop nest)
    (hStop : ∀ q ∈ stop, q ∈ stop') : Implements room p D stop' nest where
  sound := hp.sound
  complete hRoom hPhrase hNext := hp.complete hRoom hPhrase (hNext.mono hStop)

theorem Implements.bind_eq_ok (hp : Implements room p D stop nest) (h : (p >>= f) s = .ok b s') :
    ∃ ts a s₁, Moves s ts s₁ ∧ D ts a ∧ nest a ≤ s.room ∧ f a s₁ = .ok b s' := by
  obtain ⟨a, s₁, hRun, h⟩ := Parser.bind_eq_ok h
  obtain ⟨ts, hMoves, hPhrase, hNest⟩ := hp.sound hRun
  exact ⟨ts, a, s₁, hMoves, hPhrase, hNest, h⟩

/-- The first token of every phrase is of a class. -/
def StartsWith (D : Production α) (P : TokenKind → Prop) : Prop :=
  ∀ ⦃ts : List Token⦄ ⦃a : α⦄, D ts a → ∃ t us, ts = t :: us ∧ P t.kind

/-- A list that is parsed if a punctuator comes next that all of its phrases start with. -/
theorem Implements.optionalList {p : Parser (List α)} {D : Production (List α)} {nest : List α → Nat}
    {q : Punctuator} (hp : Implements room p D stop nest)
    (hFirst : StartsWith D fun k => k = .punctuator q) (hNil : nest [] = 0) :
    Implements room (do if ← peekIs q then p else return []) (OptionalList D) (q :: stop) nest where
  sound := by
    intro s s' as h
    obtain ⟨s₁, hPeek, h⟩ := (peekIs_peeks q s).bind_eq_ok h
    split at h
    · obtain ⟨ts, hMoves, hPhrase, hNest⟩ := hp.sound h
      exact ⟨ts, hPeek.trans hMoves, .present hPhrase, hPeek.room ▸ hNest⟩
    · cases h
      exact ⟨[], hPeek, .absent, by rw [hNil]; exact Nat.zero_le _⟩
  complete := by
    intro s ts rest as hRoom hPhrase hStop
    refine Accepts.peek (peekIs_peeks q s) ?_
    intro s₁ hPeek
    cases hPhrase with
    | absent =>
      rw [List.nil_append, hStop q (.head _)]
      exact .pure _ _ _ _
    | present hPhrase =>
      obtain ⟨t, us, rfl, ht⟩ := hFirst hPhrase
      rw [List.cons_append, if_pos (nextIs_cons_iff.mpr ht)]
      exact hp.complete (hPeek.room ▸ hRoom) hPhrase
        (hStop.mono fun _ => List.mem_cons_of_mem q)

theorem tooDeep_error (s : ParserState) : ∃ span s', (tooDeep : Parser α) s = .error (.tooDeep span) s' := by
  obtain ⟨s₁, hSpan, -⟩ := peekSpan_peeks s
  rw [tooDeep, bind_of_ok hSpan]
  exact ⟨_, s₁, rfl⟩

/-- One level deeper. -/
theorem Implements.nested (hp : Implements room p D stop nest) :
    Implements (room + 1) (nested p) D stop fun a => nest a + 1 where
  sound := by
    intro s s' a h
    unfold Parser.nested at h
    split at h
    · rename_i hDepth
      split at h
      · rename_i s₁ hRun
        cases h
        obtain ⟨ts, hMoves, hPhrase, hNest⟩ := hp.sound hRun
        have hBack : s₁.depth = s.depth + 1 := hMoves.depth
        refine ⟨ts, ⟨hMoves.rest, ?_, hMoves.lastEnd, hMoves.readable⟩, hPhrase, ?_⟩
        · simp [hBack]
        · rw [ParserState.room] at hNest ⊢
          simp only at hNest
          omega
      · cases h
    · rw [tooDeep] at h
      obtain ⟨span, s₁, -, h⟩ := Parser.bind_eq_ok h
      cases h
  complete := by
    intro s ts rest a hRoom hPhrase hStop hRest hReadable
    unfold Parser.nested
    split
    · rename_i hDepth
      have hDeeper : ParserState.room { s with depth := s.depth + 1 } + 1 = s.room := by
        simp only [ParserState.room]
        omega
      obtain ⟨s₁, hRun, hMoves⟩ | ⟨hFull, span, s₁, hRun⟩ :=
        hp.complete (s := { s with depth := s.depth + 1 }) (by omega) hPhrase hStop hRest hReadable
      · have hBack : s₁.depth = s.depth + 1 := hMoves.depth
        rw [hRun]
        exact .inl ⟨_, rfl, hMoves.rest, by simp [hBack], hMoves.lastEnd, hMoves.readable⟩
      · rw [hRun]
        exact .inr ⟨by omega, span, _, rfl⟩
    · exact .inr ⟨by simp only [ParserState.room]; omega, tooDeep_error s⟩

theorem implements_tooDeep (hNest : ∀ a, 0 < nest a) :
    Implements 0 (tooDeep : Parser α) D stop nest where
  sound := by
    intro s s' a h
    obtain ⟨span, s₁, hRun⟩ := tooDeep_error (α := α) s
    rw [hRun] at h
    cases h
  complete := by
    intro s ts rest a hRoom _ _ _ _
    exact .inr ⟨Nat.lt_of_le_of_lt hRoom (hNest a), tooDeep_error s⟩

/-- The node is wrapped up. -/
theorem Implements.map {E : Production β} {nest' : β → Nat} (hp : Implements room p D stop nest)
    (g : α → β) (hPhrase : ∀ ts b, E ts b ↔ ∃ a, D ts a ∧ g a = b) (hNest : ∀ a, nest' (g a) = nest a) :
    Implements room (do return g (← p)) E stop nest' where
  sound := by
    intro s s' b h
    obtain ⟨ts, a, s₁, hMoves, hD, hRoom, h⟩ := hp.bind_eq_ok h
    cases h
    exact ⟨ts, hMoves, (hPhrase ts _).mpr ⟨a, hD, rfl⟩, hNest a ▸ hRoom⟩
  complete := by
    intro s ts rest b hRoom hE hStop
    obtain ⟨a, hD, rfl⟩ := (hPhrase ts b).mp hE
    exact (hp.complete hRoom hD hStop).bind_last (Nat.le_of_eq (hNest a).symm)
      fun s₁ _ => .pure _ _ _ _

/-- One of several parsers that the next tokens choose between. -/
theorem Implements.branch_sound {E : Production β} {nest' : β → Nat} {g : α → β} {s₁ : ParserState}
    (hp : Implements room p D stop nest) (hPeek : Moves s [] s₁)
    (h : (do return g (← p) : Parser β) s₁ = .ok b s') (hPhrase : ∀ {ts a}, D ts a → E ts (g a))
    (hNest : ∀ a, nest' (g a) = nest a) : ∃ ts, Moves s ts s' ∧ E ts b ∧ nest' b ≤ s.room := by
  obtain ⟨ts, a, s₂, hMoves, hD, hRoom, h⟩ := hp.bind_eq_ok h
  cases h
  exact ⟨ts, hPeek.trans hMoves, hPhrase hD, by rwa [hNest, ← hPeek.room]⟩

theorem Implements.branch_complete {nest' : β → Nat} {g : α → β} (hp : Implements room p D stop nest)
    (hRoom : s.room ≤ room) (hPhrase : D ts a) (hStop : NotNext stop rest)
    (hNest : nest' (g a) = nest a) :
    Accepts (do return g (← p)) s ts rest (g a) (nest' (g a)) :=
  (hp.complete hRoom hPhrase hStop).bind_last (Nat.le_of_eq hNest.symm) fun _ _ => .pure _ _ _ _

/-! ## Loops -/

section

variable {item : Parser α} {more : Parser Bool} {go : Option TokenKind → Bool} {P : TokenKind → Prop}

theorem collect_sound (hMore : ∀ s, Peeks more s (go (nextKind s.rest)))
    (hItem : Implements room item D stop nest) (tokens : List Token) :
    ∀ {items as : List α} {s s' : ParserState}, collect more item tokens items s = .ok as s' →
      ∃ ts bs, Moves s ts s' ∧ Repeated D ts bs ∧ as = items.reverse ++ bs ∧ deepest nest bs ≤ s.room := by
  induction tokens with
  | nil =>
    intro items as s s' h
    rw [collect] at h
    obtain ⟨s₁, hPeek, h⟩ := (hMore s).bind_eq_ok h
    split at h
    all_goals
      cases h
      exact ⟨[], [], hPeek, .nil, by simp, Nat.zero_le _⟩
  | cons _ tokens ih =>
    intro items as s s' h
    rw [collect] at h
    obtain ⟨s₁, hPeek, h⟩ := (hMore s).bind_eq_ok h
    split at h
    · obtain ⟨ts, a, s₂, hMoves, hPhrase, hNest, h⟩ := hItem.bind_eq_ok h
      obtain ⟨us, bs, hRest, hPhrases, rfl, hDeepest⟩ := ih h
      refine ⟨ts ++ us, a :: bs, (hPeek.trans hMoves).trans hRest, .cons hPhrase hPhrases, by simp, ?_⟩
      rw [hMoves.room] at hDeepest
      rw [← hPeek.room]
      exact Nat.max_le.mpr ⟨hNest, hDeepest⟩
    · cases h
      exact ⟨[], [], hPeek, .nil, by simp, Nat.zero_le _⟩

theorem repeatWhile_bind_eq_ok {f : List α → Parser β} (go : Option TokenKind → Bool)
    (hMore : ∀ s, Peeks more s (go (nextKind s.rest))) (hItem : Implements room item D stop nest)
    (h : (repeatWhile more item >>= f) s = .ok b s') :
    ∃ ts as s₁, Moves s ts s₁ ∧ Repeated D ts as ∧ deepest nest as ≤ s.room ∧ f as s₁ = .ok b s' := by
  obtain ⟨as, s₁, hRun, h⟩ := Parser.bind_eq_ok h
  obtain ⟨ts, bs, hMoves, hPhrases, hItems, hDeepest⟩ := collect_sound hMore hItem _ hRun
  rw [List.reverse_nil, List.nil_append] at hItems
  subst hItems
  exact ⟨ts, as, s₁, hMoves, hPhrases, hDeepest, h⟩

/-- The loop goes on before every item, and no item goes on with the next one. -/
structure Separates (go : Option TokenKind → Bool) (stop : List Punctuator) (P : TokenKind → Prop) :
    Prop where
  goes : ∀ k, P k → go (some k) = true
  stops : ∀ k, P k → ∀ q ∈ stop, k ≠ .punctuator q

theorem StartsWith.notNext {ts : List Token} {as : List α} (hFirst : StartsWith D P)
    (hSeparates : Separates go stop P) (hPhrases : Repeated D ts as) (hRest : NotNext stop rest) :
    NotNext stop (ts ++ rest) := by
  cases hPhrases with
  | nil => exact hRest
  | cons hPhrase _ =>
    obtain ⟨t, us, rfl, ht⟩ := hFirst hPhrase
    intro q hq
    simpa [nextIs] using hSeparates.stops t.kind ht q hq

theorem collect_complete (hMore : ∀ s, Peeks more s (go (nextKind s.rest)))
    (hItem : Implements room item D stop nest) (hFirst : StartsWith D P)
    (hSeparates : Separates go stop P) (hEnd : go (nextKind rest) = false) (hStop : NotNext stop rest)
    {ts : List Token} {as : List α} (hPhrases : Repeated D ts as) :
    ∀ {tokens : List Token} {items : List α} {s : ParserState}, ts.length ≤ tokens.length →
      s.room ≤ room →
      Accepts (collect more item tokens items) s ts rest (items.reverse ++ as) (deepest nest as) := by
  induction hPhrases with
  | nil =>
    intro tokens items s _ _
    have hDone : ∀ s₁, Accepts (pure items.reverse : Parser (List α)) s₁ [] rest (items.reverse ++ [])
        (deepest nest []) := by
      intro s₁
      rw [List.append_nil]
      exact .pure _ _ _ _
    cases tokens with
    | nil =>
      rw [collect]
      refine Accepts.peek (a := fun ts => go (nextKind ts)) (hMore s) ?_
      intro s₁ _
      rw [List.nil_append, hEnd]
      exact hDone s₁
    | cons t tokens =>
      rw [collect]
      refine Accepts.peek (a := fun ts => go (nextKind ts)) (hMore s) ?_
      intro s₁ _
      rw [List.nil_append, hEnd]
      exact hDone s₁
  | @cons ts us a as hPhrase hPhrases ih =>
    intro tokens items s hTokens hRoom
    obtain ⟨t, vs, rfl, ht⟩ := hFirst hPhrase
    cases tokens with
    | nil => cases hTokens
    | cons _ tokens =>
      rw [collect]
      refine Accepts.peek (a := fun ts => go (nextKind ts)) (hMore s) ?_
      intro s₁ hPeek
      rw [List.cons_append, List.cons_append, nextKind_cons, if_pos (hSeparates.goes t.kind ht)]
      refine (hItem.complete (hPeek.room ▸ hRoom) hPhrase
        (hFirst.notNext hSeparates hPhrases hStop)).bind (Nat.le_max_left _ _) ?_
      intro s₂ hMoves
      have hFewer : us.length ≤ tokens.length := by
        simp only [List.cons_append, List.length_cons, List.length_append] at hTokens
        omega
      have hRoom₂ : s₂.room ≤ room := by
        rwa [hMoves.room, hPeek.room]
      have hRest := @ih tokens (a :: items) s₂ hFewer hRoom₂
      rw [List.reverse_cons, List.append_assoc] at hRest
      exact hRest.mono (Nat.le_max_right _ _)

theorem repeatWhile_complete (hMore : ∀ s, Peeks more s (go (nextKind s.rest)))
    (hItem : Implements room item D stop nest) (hFirst : StartsWith D P)
    (hSeparates : Separates go stop P) (hEnd : go (nextKind rest) = false) (hStop : NotNext stop rest)
    {ts : List Token} {as : List α} (hPhrases : Repeated D ts as) (hRoom : s.room ≤ room) :
    Accepts (repeatWhile more item) s ts rest as (deepest nest as) := by
  intro hRest
  have hTokens : ts.length ≤ s.stream.toList.length := by
    rw [← ParserState.rest, hRest, List.length_append]
    omega
  exact collect_complete hMore hItem hFirst hSeparates hEnd hStop hPhrases hTokens hRoom hRest

end

end GraphQLSyntax.Parser
