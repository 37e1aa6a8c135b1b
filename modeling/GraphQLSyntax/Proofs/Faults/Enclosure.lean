import GraphQLSyntax.Proofs.Faults.Foresees
import GraphQLSyntax.Proofs.Parsing.Enclosure

/-!
# Enclosures

An enclosure that is opened is the innermost open bracket until it is closed. At the end of the input it is
what the complaint is about.
-/

set_option autoImplicit false

namespace GraphQLSyntax.Parser

variable {α β : Type} {s₀ s : ParserState} {P K K' Q A R : Prospect} {os os' : List Opener} {room : Nat}
  {e : Enclosure} {span : Span} {item : Parser α} {C : TokenKind → Prop} {stop : List Punctuator}

theorem Foretold.openEnclosure {f : Span → Parser β} (h : Reached s₀ P os s (sign e.opening * Q))
    (hf : ∀ t s₁, s.rest = t :: s₁.rest → Reached s₀ P (⟨t.span, e⟩ :: os) s₁ Q →
      Foretold s₀ P os' K (f t.span s₁)) :
    Foretold s₀ P os' K ((Parser.openEnclosure e >>= f) s) := by
  obtain ⟨t, s₁, hRun, ht, hMoves, hOpeners⟩ | ⟨hNext, s₁, hRun, hMoves, hOpeners⟩ :=
    expect_run e.opening s
  · have hOpen : Parser.openEnclosure e s =
        .ok t.span { s₁ with openers := ⟨t.span, e⟩ :: s₁.openers } := by
      rw [Parser.openEnclosure, bind_of_ok hRun]
      rfl
    rw [bind_of_ok hOpen]
    refine hf t _ hMoves.rest ?_
    have hBefore := h.openers
    obtain ⟨ts, hPasses⟩ := h
    refine ⟨ts ++ [t], hPasses.token ht (moves_openers hMoves _) ?_ ?_⟩
    · rw [hOpeners, hBefore]
    · rw [trackBracket_opening ht, ParserState.brackets, ParserState.brackets, hOpeners]
      rfl
  · have hOpen : (TokenKind.punctuator e.opening).isClosing = false := by cases e <;> rfl
    have hFails : Foretold s₀ P os' Q (Parser.expect e.opening s) := by
      rw [hRun]
      exact h.notExpected hNext (.inl hOpen) hMoves hOpeners _
    rw [hRun] at hFails
    have hError : ∃ error s₂, Parser.expect e.opening s = .error error s₂ := by
      cases hResult : Parser.unexpected (α := Token) (.text e.opening.text) s₁ with
      | ok a s₂ => exact absurd hResult (unexpected_ne_ok _ _ _ _)
      | error error s₂ => exact ⟨error, s₂, by rw [hRun, hResult]⟩
    obtain ⟨error, s₂, hError⟩ := hError
    rw [← hRun, hError] at hFails
    have hOpenError : Parser.openEnclosure e s = .error error s₂ := by
      rw [Parser.openEnclosure, bind_of_error hError]
    rw [bind_of_error hOpenError]
    exact hFails

/-- At the end of the input an open enclosure is refused. -/
theorem Foretold.refuseEnd {f : Unit → Parser β} {o : Opener} (h : Reached s₀ P (o :: os) s Q)
    (hQ : Starts Q C) (hClosing : ∀ k, C k → k.isClosing = true → k = .punctuator o.enclosure.closing)
    (hf : ∀ s₁, Reached s₀ P (o :: os) s₁ Q → s₁.rest = s.rest → front s₁.rest ≠ none →
      Foretold s₀ P os' K (f () s₁)) :
    Foretold s₀ P os' K ((Parser.refuseEnd >>= f) s) := by
  obtain ⟨s₁, hRun, hMoves, hOpeners⟩ := looks_isAtEnd s
  have h₁ := h.look hMoves hOpeners
  have hSame : s₁.rest = s.rest := by rw [hMoves.rest, List.nil_append]
  dsimp only at hRun
  cases hEnd : isEnd (nextKind s.rest) with
  | false =>
    rw [hEnd] at hRun
    have hRefuse : Parser.refuseEnd s = .ok () s₁ := by
      rw [Parser.refuseEnd, bind_of_ok hRun]
      rfl
    rw [bind_of_ok hRefuse]
    refine hf s₁ h₁ hSame ?_
    rw [hSame]
    intro hNone
    rw [(isEnd_iff_front _).mpr hNone] at hEnd
    cases hEnd
  | true =>
    rw [hEnd] at hRun
    have hRefuse : ∃ s₂, Parser.refuseEnd s = .error (o.unclosedError s₁.endSpan) s₂ := by
      have hInnermost : s₁.openers = o :: os := h₁.openers
      have hGet : (get : Parser ParserState) s₁ = .ok s₁ s₁ := rfl
      rw [Parser.refuseEnd, bind_of_ok hRun, if_pos rfl, bind_of_ok hGet, hInnermost]
      exact ⟨_, rfl⟩
    obtain ⟨s₂, hRefuse⟩ := hRefuse
    rw [bind_of_error hRefuse]
    refine h₁.fail (.inr ⟨rfl, .inr ⟨_, rfl⟩⟩) ?_
    have hNone : front s₁.rest = none := by
      rw [hSame]
      exact (isEnd_iff_front _).mp hEnd
    have hBracket : openAfter s₁.brackets [] = some (o.token :: os.map Opener.token) := by
      rw [openAfter_nil, ParserState.brackets, h₁.openers, List.map_cons]
    refine .unclosed hNone hBracket rfl ?_
    intro vs hvs hMem
    obtain ⟨k, hFront, hk⟩ := hQ hMem
    obtain hEq | ⟨-, k', hFront', hIs⟩ := hvs
    · rw [List.nil_append] at hFront
      rw [hEq, hNone] at hFront
      cases hFront
    · rw [List.nil_append, hFront'] at hFront
      cases hFront
      rw [hFront', hClosing _ hk hIs]

theorem Foretold.closeEnclosure {f : Unit → Parser β}
    (h : Reached s₀ P (⟨span, e⟩ :: os) s (sign e.closing * Q))
    (hf : ∀ s₁, Reached s₀ P os s₁ Q → Foretold s₀ P os' K (f () s₁)) :
    Foretold s₀ P os' K ((Parser.closeEnclosure e >>= f) s) := by
  suffices hCloses : Foretold s₀ P os Q (Parser.closeEnclosure e s) from hCloses.bind fun _ => hf
  rw [Parser.closeEnclosure]
  refine Foretold.refuseEnd h (starts_sign e.closing Q) ?_ ?_
  · rintro k ⟨p, hp, rfl⟩ -
    rw [List.mem_singleton.mp hp]
  intro s₁ h₁ _ hMore
  obtain ⟨t, s₂, hRun, ht, hMoves, hOpeners⟩ | ⟨hNext, s₂, hRun, hMoves, hOpeners⟩ :=
    expect_run e.closing s₁
  · rw [bind_of_ok hRun]
    change Reached s₀ P os { s₂ with openers := s₂.openers.tail } Q
    have hBefore := h₁.openers
    obtain ⟨ts, hPasses⟩ := h₁
    refine ⟨ts ++ [t], hPasses.token ht (moves_openers hMoves _) ?_ ?_⟩
    · rw [hOpeners, hBefore]
      rfl
    · rw [ParserState.brackets, ParserState.brackets, hOpeners, hBefore]
      exact trackBracket_closing (o := ⟨span, e⟩) ht _
  · have hFails : Foretold s₀ P os Q (Parser.expect e.closing s₁) := by
      rw [hRun]
      exact h₁.notExpected hNext (.inr hMore) hMoves hOpeners _
    cases hResult : Parser.expect e.closing s₁ with
    | ok a s₃ => exact absurd (hRun ▸ hResult) (unexpected_ne_ok _ _ _ _)
    | error error s₃ =>
      rw [hResult] at hFails
      rw [bind_of_error hResult]
      exact hFails

/-! ## Items -/

theorem phrases_withinSome {D : Production α} {nest : α → Nat} :
    phrases (WithinSome e D) (fun r => deepest nest r.1) =
      sign e.opening * (phrases D nest * (phrases (Repeated D) (deepest nest) * sign e.closing)) := by
  rw [← mul_assoc (phrases D nest), ← phrases_repeated_some (E := fun ts as => as ≠ [] ∧ Repeated D ts as)
    fun _ _ => .rfl]
  ext limit ts
  constructor
  · rintro ⟨⟨as, span⟩, ⟨hSome, hPhrase, -⟩, hNest⟩
    obtain ⟨hFirst, hPhrases, hLast⟩ := hPhrase
    exact mem_tokenOf_mul.mpr ⟨_, _, rfl, hFirst,
      mem_mul.mpr ⟨_, ⟨as, ⟨hSome, hPhrases⟩, hNest⟩, [_], ⟨_, rfl, hLast⟩, rfl⟩⟩
  · intro hts
    obtain ⟨first, us, rfl, hFirst, hus⟩ := mem_tokenOf_mul.mp hts
    obtain ⟨vs, ⟨as, ⟨hSome, hPhrases⟩, hNest⟩, _, ⟨last, rfl, hLast⟩, rfl⟩ := mem_mul.mp hus
    exact ⟨(as, _), ⟨hSome, .mk hFirst hPhrases hLast, rfl⟩, hNest⟩

theorem goesOn_of_front_none {ts : List Token} (h : front ts = none) :
    goesOn e (nextKind ts) = false := by
  rw [goesOn, (isEnd_iff_front ts).mpr h]
  exact Bool.and_false _

theorem goesOn_of_front {ts : List Token} {k : TokenKind} (h : front ts = some k)
    (hOpen : k ≠ .punctuator e.closing) : goesOn e (nextKind ts) = true := by
  have hMore : k ≠ .endOfInput := by
    rintro rfl
    exact front_ne_end _ h
  rw [nextKind_of_front h]
  simp [goesOn, isEnd, hMore, hOpen]

theorem goesOn_closing {limit : ℕ∞} {vs : List Token} (h : vs ∈ (sign e.closing * K) limit) :
    goesOn e (nextKind vs) = false := by
  obtain ⟨t, us, rfl, ht, -⟩ := mem_tokenOf_mul.mp h
  rw [nextKind_cons, ht]
  simp [goesOn]

section

variable (hItem : Foresees room item A stop) (hA : Completable A) (hStarts : Starts A C)
  (hOpens : ∀ k, C k → k.isClosing = false)

include hOpens

theorem ne_closing_of_opens {k : TokenKind} (hk : C k) : k ≠ .punctuator e.closing := by
  rintro rfl
  have hIs := e.isClosing_closing
  rw [hOpens _ hk] at hIs
  cases hIs

include hStarts

/-- The closing punctuator stands where an item has to. -/
theorem Reached.closedAtOnce {t : Token} (h : Reached s₀ P os s (A * K)) (hOpener : t ∈ s₀.rest)
    (hClosed : nextIs e.closing s.rest = true) :
    Foretold s₀ P os' K' ((do
      let _ ← Parser.next
      throw (e.emptyError (← Parser.spanFrom t.span)) : Parser β) s) := by
  cases hRest : s.rest with
  | nil =>
    rw [hRest] at hClosed
    cases hClosed
  | cons u us =>
    obtain ⟨s₁, hRun, -⟩ := next_run hRest
    rw [bind_of_ok hRun]
    change Failure s₀ P (e.emptyError (s₁.spanFrom t.span))
    have hu : u.Is e.closing := by
      rwa [hRest, nextIs_cons_iff] at hClosed
    refine h.fail (.inl ⟨t, hOpener, rfl⟩) (.refused hRest ?_ rfl ?_)
    · rw [hu]
      simp
    · refine blocked_of_starts (hStarts.mul K) ?_ hOpens
      intro k hk hC
      rw [nextIs_iff_front.mp hClosed] at hk
      cases hk
      exact ne_closing_of_opens hOpens hC rfl

/-- The input ends where an item has to stand. -/
theorem Reached.endsAtOnce (h : Reached s₀ P (⟨span, e⟩ :: os) s (A * K)) (hEnd : front s.rest = none) :
    Foretold s₀ P os' K' (Parser.closeEnclosure e s) := by
  rw [Parser.closeEnclosure]
  refine Foretold.refuseEnd h (hStarts.mul K) ?_ ?_
  · intro k hk hIs
    rw [hOpens k hk] at hIs
    cases hIs
  · intro s₁ _ hSame hMore
    rw [hSame] at hMore
    exact absurd hEnd hMore

variable (hEnd : ¬ C .endOfInput) (hR : R = 1 + A * R) (hItems : ∀ k, C k → ¬ IsSign stop k)
  (hClosing : e.closing ∉ stop)

include hItem hA hEnd hR

/-- The loop over the items of an enclosure. -/
theorem loop_enclosure : Loop room (hasMore e) (goesOn e) item A R stop C where
  more := looks_hasMore e
  item := hItem
  completable := hA
  starts := hStarts
  unroll := hR
  goes k hk := by
    have hMore : k ≠ .endOfInput := by
      rintro rfl
      exact hEnd hk
    simp [goesOn, isEnd, hMore, ne_closing_of_opens hOpens hk]
  opens := hOpens
  ends _ := goesOn_of_front_none

include hItems hClosing

theorem avoids_items (K : Prospect) : Avoids (R * (sign e.closing * K)) (IsSign stop) := by
  have hLoop := loop_enclosure (e := e) hItem hA hStarts hOpens hEnd hR
  refine hLoop.avoids hItems ((starts_sign e.closing K).avoids (IsSign.not_of_disjoint ?_))
  intro p hp
  rwa [List.mem_singleton.mp hp]

theorem foresees_enclosed :
    Foresees room (enclosed e item) (sign e.opening * (R * sign e.closing)) [] := by
  intro s K hRoom hCompletable _
  have hLoop := loop_enclosure (e := e) hItem hA hStarts hOpens hEnd hR
  have hStop := avoids_items hItem hA hStarts hOpens hEnd hR hItems hClosing K
  have h := Reached.refl s hCompletable
  rw [mul_assoc, mul_assoc] at h ⊢
  rw [enclosed]
  refine Foretold.openEnclosure h ?_
  intro t s₁ _ h₁
  refine (hLoop.repeatWhile goesOn_closing hStop hRoom h₁).bind ?_
  intro as s₂ h₂
  refine Foretold.closeEnclosure h₂ ?_
  intro s₃ h₃
  exact .spanFrom h₃

theorem foresees_enclosedSome :
    Foresees room (enclosedSome e item) (sign e.opening * (A * (R * sign e.closing))) [] := by
  intro s K hRoom hCompletable _
  have hLoop := loop_enclosure (e := e) hItem hA hStarts hOpens hEnd hR
  have hStop := avoids_items hItem hA hStarts hOpens hEnd hR hItems hClosing K
  have h := Reached.refl s hCompletable
  rw [mul_assoc, mul_assoc, mul_assoc] at h ⊢
  rw [enclosedSome]
  refine Foretold.openEnclosure h ?_
  intro t s₁ hRest h₁
  refine Foretold.peek (looks_peekIs e.closing) h₁ ?_
  intro s₂ h₂ hSame
  split
  · rename_i hClosed
    rw [← hSame] at hClosed
    refine h₂.closedAtOnce hStarts hOpens ?_ hClosed
    rw [hRest]
    exact .head _
  · rename_i hOpen
    rw [← hSame] at hOpen
    cases hFront : front s₂.rest with
    | none =>
      refine hLoop.repeatNone h₂ (goesOn_of_front_none hFront) ?_
      intro s₃ h₃ hSame₃
      rw [← hSame₃] at hFront
      have hRefused : Foretold s _ s.openers K (Parser.closeEnclosure e s₃) :=
        h₃.endsAtOnce hStarts hOpens hFront
      refine hRefused.bind ?_
      intro _ s₄ h₄
      exact .spanFrom h₄
    | some k =>
      have hNotClosing : k ≠ .punctuator e.closing := by
        rintro rfl
        exact hOpen (nextIs_iff_front.mpr hFront)
      refine (hLoop.repeatSome goesOn_closing hStop hRoom h₂ (goesOn_of_front hFront hNotClosing)).bind ?_
      intro as s₃ h₃
      refine Foretold.closeEnclosure h₃ ?_
      intro s₄ h₄
      exact .spanFrom h₄

end

end GraphQLSyntax.Parser
