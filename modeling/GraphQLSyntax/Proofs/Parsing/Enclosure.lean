import GraphQLSyntax.Proofs.Parsing.Implements

/-!
# Parsers of enclosures
-/

set_option autoImplicit false

namespace GraphQLSyntax.Parser

variable {α β : Type} {e : Enclosure} {s s' : ParserState} {a : α} {b : β} {us rest : List Token}
  {n room : Nat}

/-- Openers are no part of what a parser consumes. -/
theorem moves_openers {s s' : ParserState} {ts : List Token} (h : Moves s ts s')
    (openers : List Opener) : Moves s ts { s' with openers } :=
  ⟨h.rest, h.depth, h.lastEnd, h.readable⟩

theorem openEnclosure_bind_eq_ok {f : Span → Parser β} (h : (openEnclosure e >>= f) s = .ok b s') :
    ∃ t s₁, Moves s [t] s₁ ∧ t.Is e.opening ∧ f t.span s₁ = .ok b s' := by
  obtain ⟨span, s₂, hOpen, h⟩ := bind_eq_ok h
  rw [openEnclosure] at hOpen
  obtain ⟨t, s₁, hMoves, ht, hOpen⟩ := expect_bind_eq_ok hOpen
  cases hOpen
  exact ⟨t, _, moves_openers hMoves _, ht, h⟩

theorem Accepts.openEnclosure {t : Token} {f : Span → Parser β} (ht : t.Is e.opening)
    (hf : ∀ s₁, Moves s [t] s₁ → Accepts (f t.span) s₁ us rest b n) :
    Accepts (Parser.openEnclosure e >>= f) s (t :: us) rest b n := by
  refine Accepts.bind_token (m := 0) ?_ (Nat.zero_le n) hf
  rw [Parser.openEnclosure]
  refine Accepts.expect ht ?_
  intro s₁ _ _ _
  exact .inl ⟨{ s₁ with openers := ⟨t.span, e⟩ :: s₁.openers }, rfl, moves_openers (.refl s₁) _⟩

theorem refuseEnd_eq_ok {u : Unit} (h : refuseEnd s = .ok u s') : Moves s [] s' := by
  rw [refuseEnd] at h
  obtain ⟨s₁, hPeek, h⟩ := (isAtEnd_peeks s).bind_eq_ok h
  split at h
  · obtain ⟨current, s₂, hGet, h⟩ := bind_eq_ok h
    cases hGet
    cases hOpeners : s₁.openers with
    | nil =>
      rw [hOpeners] at h
      cases h
      exact hPeek
    | cons opener openers =>
      rw [hOpeners] at h
      cases h
  · cases h
    exact hPeek

theorem Accepts.refuseEnd {f : Unit → Parser β} {ts : List Token}
    (hMore : isEnd (nextKind (ts ++ rest)) = false)
    (hf : ∀ s₁, Moves s [] s₁ → Accepts (f ()) s₁ ts rest b n) :
    Accepts (Parser.refuseEnd >>= f) s ts rest b n := by
  refine Accepts.bind_nil (m := 0) ?_ (Nat.zero_le n) hf
  rw [Parser.refuseEnd]
  refine Accepts.peek (a := fun ts => isEnd (nextKind ts)) (isAtEnd_peeks s) ?_
  intro s₁ _
  rw [List.nil_append, hMore]
  exact .pure _ _ _ _

theorem closeEnclosure_bind_eq_ok {f : Unit → Parser β} (h : (closeEnclosure e >>= f) s = .ok b s') :
    ∃ t s₁, Moves s [t] s₁ ∧ t.Is e.closing ∧ f () s₁ = .ok b s' := by
  obtain ⟨u, s₂, hClose, h⟩ := bind_eq_ok h
  rw [closeEnclosure] at hClose
  obtain ⟨_, s₁, hRefuse, hClose⟩ := bind_eq_ok hClose
  obtain ⟨t, s₃, hMoves, ht, hClose⟩ := expect_bind_eq_ok hClose
  cases hClose
  exact ⟨t, _, moves_openers ((refuseEnd_eq_ok hRefuse).trans hMoves) _, ht, h⟩

theorem Accepts.closeEnclosure {t : Token} {f : Unit → Parser β} (ht : t.Is e.closing)
    (hf : ∀ s₁, Moves s [t] s₁ → Accepts (f ()) s₁ us rest b n) :
    Accepts (Parser.closeEnclosure e >>= f) s (t :: us) rest b n := by
  refine Accepts.bind_token (m := 0) ?_ (Nat.zero_le n) hf
  rw [Parser.closeEnclosure]
  refine Accepts.refuseEnd (by rw [List.singleton_append, nextKind_cons, ht]; rfl) ?_
  intro s₁ _
  refine Accepts.expect ht ?_
  intro s₂ _ _ _
  exact .inl ⟨{ s₂ with openers := s₂.openers.tail }, rfl, moves_openers (.refl s₂) _⟩

/-! ## Items -/

def goesOn (e : Enclosure) (k : Option TokenKind) : Bool :=
  k != some (.punctuator e.closing) && !isEnd k

theorem hasMore_peeks (e : Enclosure) (s : ParserState) :
    Peeks (hasMore e) s (goesOn e (nextKind s.rest)) := by
  obtain ⟨s₁, hRun, hMoves⟩ := peekIs_peeks e.closing s
  obtain ⟨s₂, hRun₂, hMoves₂⟩ := isAtEnd_peeks s₁
  rw [hMoves.nextKind_eq] at hRun₂
  unfold Peeks
  rw [hasMore, bind_of_ok hRun]
  cases hIs : nextIs e.closing s.rest with
  | true =>
    rw [nextIs, beq_iff_eq] at hIs
    rw [hIs]
    exact ⟨s₁, by simp [goesOn]; rfl, hMoves⟩
  | false =>
    refine ⟨s₂, ?_, hMoves.trans hMoves₂⟩
    rw [goesOn, bne, ← nextIs, hIs]
    exact bind_of_ok hRun₂

variable {item : Parser α} {D : Production α} {stop : List Punctuator} {nest : α → Nat}
  {P : TokenKind → Prop}

/-- The items of an enclosure can neither be taken for its end nor go on with one another. -/
structure Encloses (e : Enclosure) (stop : List Punctuator) (P : TokenKind → Prop) : Prop where
  closing : ¬ P (.punctuator e.closing)
  endOfInput : ¬ P .endOfInput
  stops : ∀ q ∈ stop, ¬ P (.punctuator q) ∧ q ≠ e.closing

theorem Encloses.separates (h : Encloses e stop P) : Separates (goesOn e) stop P where
  goes k hk := by
    have hClosing : k ≠ .punctuator e.closing := fun hEq => h.closing (hEq ▸ hk)
    have hEnd : k ≠ .endOfInput := fun hEq => h.endOfInput (hEq ▸ hk)
    simp [goesOn, isEnd, hClosing, hEnd]
  stops k hk q hq hEq := (h.stops q hq).1 (hEq ▸ hk)

theorem Encloses.stop_closing {t : Token} (h : Encloses e stop P) (ht : t.Is e.closing)
    (rest : List Token) :
    goesOn e (nextKind (t :: rest)) = false ∧ NotNext stop (t :: rest) := by
  constructor
  · rw [nextKind_cons, ht]
    simp [goesOn]
  · intro q hq
    have hNe := (h.stops q hq).2
    rw [nextIs, nextKind_cons, ht]
    simpa using fun hEq => hNe hEq.symm

/-- What stands between the delimiters and the span over all of it. -/
def Within (e : Enclosure) (D : Production α) : Production (List α × Span) := fun ts r =>
  Enclosed e.opening e.closing D ts r.1 ∧ r.2 = spanOver ts

theorem implements_enclosed (hItem : Implements room item D stop nest) (hFirst : StartsWith D P)
    (hEncloses : Encloses e stop P) :
    Implements room (enclosed e item) (Within e D) [] fun r => deepest nest r.1 where
  sound := by
    intro s s' r h
    rw [enclosed] at h
    obtain ⟨first, s₁, hOpen, hFirstIs, h⟩ := openEnclosure_bind_eq_ok h
    obtain ⟨ts, as, s₂, hItems, hPhrases, hNest, h⟩ :=
      repeatWhile_bind_eq_ok (goesOn e) (hasMore_peeks e) hItem h
    obtain ⟨last, s₃, hClose, hLastIs, h⟩ := closeEnclosure_bind_eq_ok h
    obtain ⟨rfl, rfl⟩ := spanFrom_eq_ok h
    have hMoves := hOpen.trans (hItems.trans hClose)
    refine ⟨first :: (ts ++ [last]), hMoves, ⟨.mk hFirstIs hPhrases hLastIs, ?_⟩, hOpen.room ▸ hNest⟩
    exact hMoves.spanFrom (Span.startsOver_token first _)
  complete := by
    rintro s ts rest ⟨as, span⟩ hRoom ⟨hPhrase, hSpan : span = spanOver ts⟩ -
    subst hSpan
    cases hPhrase with
    | @mk first last ts _ hFirstIs hPhrases hLastIs =>
      rw [enclosed]
      refine Accepts.openEnclosure hFirstIs ?_
      intro s₁ hOpen
      obtain ⟨hEnd, hStop⟩ := hEncloses.stop_closing hLastIs rest
      refine (repeatWhile_complete (hasMore_peeks e) hItem hFirst hEncloses.separates hEnd hStop hPhrases
        (hOpen.room ▸ hRoom)).bind (Nat.le_refl _) ?_
      intro s₂ hItems
      refine Accepts.closeEnclosure hLastIs ?_
      intro s₃ hClose
      have hMoves := hOpen.trans (hItems.trans hClose)
      exact .spanFrom (hMoves.spanFrom (Span.startsOver_token first _))

def WithinSome (e : Enclosure) (D : Production α) : Production (List α × Span) := fun ts r =>
  r.1 ≠ [] ∧ Within e D ts r

theorem implements_enclosedSome (hItem : Implements room item D stop nest) (hFirst : StartsWith D P)
    (hEncloses : Encloses e stop P) :
    Implements room (enclosedSome e item) (WithinSome e D) [] fun r => deepest nest r.1 where
  sound := by
    intro s s' r h
    rw [enclosedSome] at h
    obtain ⟨first, s₁, hOpen, hFirstIs, h⟩ := openEnclosure_bind_eq_ok h
    obtain ⟨s₂, hPeek, h⟩ := (peekIs_peeks e.closing s₁).bind_eq_ok h
    split at h
    · obtain ⟨t, s₃, -, h⟩ := bind_eq_ok h
      cases h
    · rename_i hNotClosing
      obtain ⟨ts, as, s₃, hItems, hPhrases, hNest, h⟩ :=
        repeatWhile_bind_eq_ok (goesOn e) (hasMore_peeks e) hItem h
      obtain ⟨last, s₄, hClose, hLastIs, h⟩ := closeEnclosure_bind_eq_ok h
      obtain ⟨rfl, rfl⟩ := spanFrom_eq_ok h
      have hMoves := hOpen.trans ((hPeek.trans hItems).trans hClose)
      have hSome : as ≠ [] := by
        rintro rfl
        cases hPhrases
        rw [(hPeek.trans (hItems.trans hClose)).rest] at hNotClosing
        exact hNotClosing (nextIs_cons_iff.mpr hLastIs)
      refine ⟨first :: (ts ++ [last]), hMoves, ⟨hSome, .mk hFirstIs hPhrases hLastIs, ?_⟩, ?_⟩
      · exact hMoves.spanFrom (Span.startsOver_token first _)
      · rw [← hOpen.room, ← hPeek.room]
        exact hNest
  complete := by
    rintro s ts rest ⟨as, span⟩ hRoom ⟨hSome, hPhrase, hSpan : span = spanOver ts⟩ -
    subst hSpan
    cases hPhrase with
    | @mk first last ts _ hFirstIs hPhrases hLastIs =>
      rw [enclosedSome]
      refine Accepts.openEnclosure hFirstIs ?_
      intro s₁ hOpen
      refine Accepts.peek (peekIs_peeks e.closing s₁) ?_
      intro s₂ hPeek
      have hNotClosing : nextIs e.closing (ts ++ [last] ++ rest) = false := by
        cases hPhrases with
        | nil => exact absurd rfl hSome
        | cons hPhrase _ =>
          obtain ⟨t, us, rfl, ht⟩ := hFirst hPhrase
          rw [Bool.eq_false_iff]
          intro hIs
          exact hEncloses.closing (nextIs_cons_iff.mp hIs ▸ ht)
      rw [hNotClosing]
      obtain ⟨hEnd, hStop⟩ := hEncloses.stop_closing hLastIs rest
      refine (repeatWhile_complete (hasMore_peeks e) hItem hFirst hEncloses.separates hEnd hStop hPhrases
        (by rwa [hPeek.room, hOpen.room])).bind (Nat.le_refl _) ?_
      intro s₃ hItems
      refine Accepts.closeEnclosure hLastIs ?_
      intro s₄ hClose
      have hMoves := hOpen.trans ((hPeek.trans hItems).trans hClose)
      exact .spanFrom (hMoves.spanFrom (Span.startsOver_token first _))

end GraphQLSyntax.Parser
