import GraphQLSyntax.Proofs.Lookahead.Steps

/-!
# The ledger of a parser

A parser enters levels and opens enclosures, and whatever it enters it leaves, and whatever it opens it closes. The way
it is put together shows where that happens, and the ledger of a run tells in which states it did.
-/

set_option autoImplicit false

namespace GraphQLSyntax

namespace Parser

/-! ## How parsers are put together -/

/-- A parser that neither enters a level nor opens or closes anything. -/
inductive Plain : {α : Type} → Parser α → Prop
  | pure {α : Type} (a : α) : Plain (pure a)
  | get : Plain get
  | throw {α : Type} (e : ParseError) : Plain (throw e : Parser α)
  | peekNth (n : Nat) : Plain (peekNth n)
  | isAtEnd : Plain isAtEnd
  | next : Plain next
  | bind {α β : Type} {p : Parser α} {f : α → Parser β} : Plain p → (∀ a, Plain (f a)) → Plain (p >>= f)

/-- What stands between an opening punctuator and the closing one, and what is made of it. -/
def within {α β : Type} (e : Enclosure) (body : Span → Parser α) (made : Span → α → Parser β) : Parser β := do
  let opening ← openEnclosure e
  let a ← body opening
  closeEnclosure e
  made opening a

/-- How a parser is put together. A level is entered and left by `nested` alone, and what an enclosure opens it closes
itself, behind its body. -/
inductive Assembly : {α : Type} → Parser α → Type 1
  | plain {α : Type} {p : Parser α} : Plain p → Assembly p
  | bind {α β : Type} {p : Parser α} {f : α → Parser β} :
      Assembly p → (∀ a, Assembly (f a)) → Assembly (p >>= f)
  | nested {α : Type} {p : Parser α} : Assembly p → Assembly (nested p)
  | refuseEnd : Assembly refuseEnd
  | enclosure {α β : Type} {p : Parser β} (e : Enclosure) {body : Span → Parser α} {made : Span → α → Parser β} :
      p = within e body made → (∀ opening, Assembly (body opening)) → (∀ opening a, Plain (made opening a)) →
      Assembly p

/-! ## Ledgers -/

/-- What a run comes by. -/
inductive Entry where
  /-- A state before or after a step. -/
  | passing (s : ParserState)
  /-- A level is about to be left. -/
  | leaving (s : ParserState)
  /-- The enclosure with the given opener is about to be closed, if its closing punctuator comes next. -/
  | closing (opener : Opener) (s : ParserState)
  deriving DecidableEq, Repr

def Entry.state : Entry → ParserState
  | passing s | leaving s | closing _ s => s

/-- What a run comes by, from its first state to its last one. -/
def Assembly.ledger : {α : Type} → {p : Parser α} → Assembly p → ParserState → List Entry
  | _, p, .plain _, s => [.passing s, .passing (finalState (p s))]
  | _, _, @Assembly.bind _ _ p _ first rest, s =>
    first.ledger s ++
      match p s with
      | .ok a s₁ => (rest a).ledger s₁
      | .error _ _ => []
  | _, _, @Assembly.nested _ p inside, s =>
    if s.depth < maxDepth then
      .passing s :: (inside.ledger { s with depth := s.depth + 1 } ++
        [.leaving (finalState (p { s with depth := s.depth + 1 })), .passing (finalState (Parser.nested p s))])
    else [.passing s, .passing (finalState (Parser.nested p s))]
  | _, _, .refuseEnd, s => [.passing s, .passing (finalState (Parser.refuseEnd s))]
  | _, p, @Assembly.enclosure _ _ _ e body _ _ inside _, s =>
    .passing s ::
      match openEnclosure e s with
      | .error _ s₁ => [.passing s₁]
      | .ok opening s₁ => (inside opening).ledger s₁ ++
        match body opening s₁ with
        | .error _ _ => []
        | .ok _ s₂ => [.closing ⟨opening, e⟩ s₂, .passing (finalState (p s))]

variable {α β : Type} {p : Parser α} {f : α → Parser β} {s t : ParserState}

/-! ## Where a run ends -/

/-- A run ends as deep as it began, and with the given openers if it succeeds. -/
def Ends (s : ParserState) (openers : α → List Opener) : EStateM.Result ParseError ParserState α → Prop
  | .ok a t => t.depth = s.depth ∧ t.openers = openers a
  | .error _ t => t.depth = s.depth

/-- The openers are what they were. -/
def Settled (s : ParserState) (r : EStateM.Result ParseError ParserState α) : Prop :=
  Ends s (fun _ => s.openers) r

variable {openers : α → List Opener} {openers' : β → List Opener}

theorem Ends.depth_eq {r : EStateM.Result ParseError ParserState α} (h : Ends s openers r) :
    (finalState r).depth = s.depth := by
  cases r with
  | ok a t => exact h.1
  | error e t => exact h

theorem Ends.bind (hp : Ends s openers (p s))
    (hf : ∀ a t, t.depth = s.depth → t.openers = openers a → Ends t openers' (f a t)) :
    Ends s openers' ((p >>= f) s) := by
  cases hRun : p s with
  | error e t =>
    rw [hRun] at hp
    rw [bind_of_error hRun]
    exact hp
  | ok a t =>
    rw [hRun] at hp
    obtain ⟨hDepth, hOpeners⟩ := hp
    have hRest := hf a t hDepth hOpeners
    rw [bind_of_ok hRun]
    cases hEnd : f a t with
    | ok b u =>
      rw [hEnd] at hRest
      exact ⟨hRest.1.trans hDepth, hRest.2⟩
    | error e u =>
      rw [hEnd] at hRest
      exact Eq.trans hRest hDepth

theorem Settled.bind (hp : Settled s (p s)) (hf : ∀ a t, Settled t (f a t)) : Settled s ((p >>= f) s) := by
  refine Ends.bind hp fun a t _ hOpeners => ?_
  have hRest := hf a t
  rwa [Settled, hOpeners] at hRest

theorem settled_isAtEnd (s : ParserState) : Settled s (isAtEnd s) := by
  unfold isAtEnd
  exact ⟨rfl, rfl⟩

theorem settled_next (s : ParserState) : Settled s (next s) := by
  unfold next
  rcases s.stream.consume with ⟨_ | t, stream⟩
  · exact rfl
  · exact ⟨rfl, rfl⟩

theorem Plain.settled (h : Plain p) (s : ParserState) : Settled s (p s) := by
  induction h generalizing s with
  | pure | get | peekNth => exact ⟨rfl, rfl⟩
  | throw => exact rfl
  | isAtEnd => exact settled_isAtEnd s
  | next => exact settled_next s
  | bind _ _ ihFirst ihRest => exact (ihFirst s).bind ihRest

/-! ## Plain parsers -/

theorem Plain.map (h : Plain p) (f : α → β) : Plain (do return f (← p)) :=
  h.bind fun a => .pure (f a)

theorem Plain.ite {q : Parser α} {c : Prop} [Decidable c] (hp : Plain p) (hq : Plain q) :
    Plain (if c then p else q) := by
  split
  · exact hp
  · exact hq

theorem plain_peekKindNth (n : Nat) : Plain (peekKindNth n) := (Plain.peekNth n).map _

theorem plain_peekKind : Plain peekKind := plain_peekKindNth 0

theorem plain_peekIs (q : Punctuator) : Plain (peekIs q) := plain_peekKind.map _

theorem plain_peekIsWord (word : String) : Plain (peekIsWord word) := plain_peekKind.map _

theorem plain_endSpan : Plain endSpan := Plain.get.map _

theorem plain_spanFrom (first : Span) : Plain (spanFrom first) := Plain.get.map _

theorem plain_peekSpan : Plain peekSpan := by
  refine (Plain.peekNth 0).bind fun token => ?_
  cases token with
  | some token => exact .pure token.span
  | none => exact plain_endSpan

theorem plain_throwHere (f : Span → ParseError) : Plain (do throw (f (← peekSpan)) : Parser α) :=
  plain_peekSpan.bind fun span => .throw (f span)

theorem plain_unexpected (expected : Expected) : Plain (unexpected expected : Parser α) := by
  refine (Plain.peekNth 0).bind fun token => ?_
  cases token with
  | some token => exact .throw _
  | none => exact plain_endSpan.bind fun _ => .throw _

theorem plain_expect (q : Punctuator) : Plain (expect q) :=
  (plain_peekIs q).bind fun _ => .ite .next (plain_unexpected _)

theorem plain_expectWord (word : String) : Plain (expectWord word) :=
  (plain_peekIsWord word).bind fun _ => .ite (Plain.next.map _) (plain_unexpected _)

theorem plain_name : Plain name := by
  refine plain_peekKind.bind fun kind => ?_
  cases kind.bind TokenKind.nameText? with
  | some text => exact Plain.next.map _
  | none => exact plain_unexpected _

theorem plain_tooDeep : Plain (tooDeep : Parser α) := plain_throwHere _

/-! ## Opening and closing -/

theorem ends_openEnclosure (e : Enclosure) (s : ParserState) :
    Ends s (fun opening => ⟨opening, e⟩ :: s.openers) (openEnclosure e s) := by
  refine Ends.bind ((plain_expect e.opening).settled s) fun opening t _ hOpeners => ?_
  exact ⟨rfl, congrArg _ hOpeners⟩

theorem settled_refuseEnd (s : ParserState) : Settled s (refuseEnd s) := by
  refine (settled_isAtEnd s).bind fun atEnd t => ?_
  cases atEnd with
  | false => exact ⟨rfl, rfl⟩
  | true =>
    rcases t with ⟨stream, _ | ⟨opener, openers⟩, depth, lastEnd⟩
    · exact ⟨rfl, rfl⟩
    · exact rfl

theorem ends_closeEnclosure (e : Enclosure) (s : ParserState) :
    Ends s (fun _ => s.openers.tail) (closeEnclosure e s) := by
  refine Ends.bind (settled_refuseEnd s) fun _ t _ hRefused => ?_
  refine Ends.bind ((plain_expect e.closing).settled t) fun _ u _ hExpected => ?_
  exact ⟨rfl, congrArg List.tail (hExpected.trans hRefused)⟩

theorem settled_nested (hp : ∀ s, Settled s (p s)) (s : ParserState) : Settled s (nested p s) := by
  unfold nested
  split
  · have hInside := hp { s with depth := s.depth + 1 }
    cases hRun : p { s with depth := s.depth + 1 } with
    | ok a t =>
      rw [hRun] at hInside
      exact ⟨Nat.sub_eq_of_eq_add hInside.1, hInside.2⟩
    | error e t =>
      rw [hRun] at hInside
      exact Nat.sub_eq_of_eq_add hInside
  · exact plain_tooDeep.settled s

theorem settled_within {e : Enclosure} {body : Span → Parser α} {made : Span → α → Parser β}
    (hBody : ∀ opening s, Settled s (body opening s)) (hMade : ∀ opening a, Plain (made opening a))
    (s : ParserState) : Settled s (within e body made s) := by
  refine (ends_openEnclosure e s).bind fun opening s₁ _ hOpened => ?_
  refine Ends.bind (hBody opening s₁) fun a s₂ _ hInside => ?_
  refine (ends_closeEnclosure e s₂).bind fun _ s₃ _ hClosed => ?_
  have hOpeners : s₃.openers = s.openers := by rw [hClosed, hInside, hOpened, List.tail_cons]
  rw [← hOpeners]
  exact (hMade opening a).settled s₃

/-- However a parser is put together, it leaves every level it enters and closes what it opens. -/
theorem Assembly.settled (a : Assembly p) (s : ParserState) : Settled s (p s) := by
  induction a generalizing s with
  | plain h => exact h.settled s
  | bind _ _ ihFirst ihRest => exact (ihFirst s).bind ihRest
  | nested _ ih => exact settled_nested ih s
  | refuseEnd => exact settled_refuseEnd s
  | enclosure e hp _ hMade ih =>
    rw [hp]
    exact settled_within ih hMade s

/-! ## What the ledger shows -/

/-- An entry of a run that began at the given depth: no level below that one is left and none beyond the limit entered,
and what is closed was opened last. -/
structure Entry.Sound (first : Nat) (entry : Entry) : Prop where
  first_le : first ≤ entry.state.depth
  le_max : entry.state.depth ≤ max first maxDepth
  leaving : ∀ t, entry = .leaving t → first < t.depth
  closing : ∀ opener t, entry = .closing opener t → t.openers.head? = some opener

theorem Entry.sound_passing (s : ParserState) : Entry.Sound s.depth (.passing s) where
  first_le := Nat.le_refl _
  le_max := Nat.le_max_left _ _
  leaving := nofun
  closing := nofun

theorem Entry.sound_passing_of_eq (h : t.depth = s.depth) : Entry.Sound s.depth (.passing t) :=
  h ▸ Entry.sound_passing t

theorem Entry.Sound.of_nested {n : Nat} {entry : Entry} (h : entry.Sound (n + 1)) (hn : n < maxDepth) :
    entry.Sound n where
  first_le := Nat.le_of_succ_le h.first_le
  le_max := by
    have hMax := h.le_max
    omega
  leaving t ht := Nat.lt_of_succ_lt (h.leaving t ht)
  closing := h.closing

theorem Entry.sound_leaving (h : s.depth < maxDepth) (ht : t.depth = s.depth + 1) :
    Entry.Sound s.depth (.leaving t) where
  first_le := ht ▸ Nat.le_succ _
  le_max := ht ▸ Nat.le_trans h (Nat.le_max_right _ _)
  leaving u hu := by
    cases hu
    exact ht ▸ Nat.lt_succ_self _
  closing := nofun

theorem Entry.sound_closing {opener : Opener} (hDepth : t.depth = s.depth) (h : t.openers.head? = some opener) :
    Entry.Sound s.depth (.closing opener t) where
  first_le := hDepth ▸ Nat.le_refl _
  le_max := hDepth ▸ Nat.le_max_left _ _
  leaving := nofun
  closing _ _ hEntry := by
    cases hEntry
    exact h

/-- Before and after. -/
theorem Settled.sound {r : EStateM.Result ParseError ParserState α} (h : Settled s r) :
    ∀ entry ∈ [Entry.passing s, .passing (finalState r)], entry.Sound s.depth := by
  simp only [List.mem_cons, List.not_mem_nil, or_false]
  rintro entry (rfl | rfl)
  · exact Entry.sound_passing s
  · exact Entry.sound_passing_of_eq (Ends.depth_eq h)

/-- Every entry of a run's ledger is sound: one level is counted for what stands between entering it and leaving it, and
the body of an enclosure gives back the opener that was pushed before it. -/
theorem Assembly.ledger_sound (a : Assembly p) (s : ParserState) : ∀ entry ∈ a.ledger s, entry.Sound s.depth := by
  induction a generalizing s with
  | plain h => exact (h.settled s).sound
  | refuseEnd => exact (settled_refuseEnd s).sound
  | @bind α β p f first rest ihFirst ihRest =>
    intro entry hEntry
    rw [ledger] at hEntry
    rcases List.mem_append.mp hEntry with hEntry | hEntry
    · exact ihFirst s entry hEntry
    · have hFirst := first.settled s
      cases hRun : p s with
      | error e t =>
        rw [hRun] at hEntry
        cases hEntry
      | ok a t =>
        rw [hRun] at hEntry hFirst
        exact hFirst.1 ▸ ihRest a t entry hEntry
  | @nested α p inside ih =>
    intro entry hEntry
    have hWhole := settled_nested inside.settled s
    rw [ledger] at hEntry
    split at hEntry
    · rename_i hDepth
      simp only [List.mem_cons, List.mem_append, List.not_mem_nil, or_false] at hEntry
      obtain rfl | hEntry | rfl | rfl := hEntry
      · exact Entry.sound_passing s
      · -- Inside, one level more is the least depth, so that the level to be left is there.
        exact (ih { s with depth := s.depth + 1 } entry hEntry).of_nested hDepth
      · exact Entry.sound_leaving hDepth (Ends.depth_eq (inside.settled { s with depth := s.depth + 1 }))
      · exact Entry.sound_passing_of_eq (Ends.depth_eq hWhole)
    · exact hWhole.sound entry hEntry
  | @enclosure α β p e body made hp inside hMade ih =>
    intro entry hEntry
    have hWhole := settled_within (e := e) (fun opening => (inside opening).settled) hMade s
    have hOpening := ends_openEnclosure e s
    rw [ledger] at hEntry
    rcases List.mem_cons.mp hEntry with rfl | hEntry
    · exact Entry.sound_passing s
    cases hOpen : openEnclosure e s with
    | error d s₁ =>
      rw [hOpen] at hEntry hOpening
      rw [List.mem_singleton.mp hEntry]
      exact Entry.sound_passing_of_eq hOpening
    | ok opening s₁ =>
      rw [hOpen] at hEntry hOpening
      obtain ⟨hDepth, hOpeners⟩ := hOpening
      rcases List.mem_append.mp hEntry with hEntry | hEntry
      · exact hDepth ▸ ih opening s₁ entry hEntry
      have hBody := (inside opening).settled s₁
      cases hInside : body opening s₁ with
      | error d s₂ =>
        rw [hInside] at hEntry
        cases hEntry
      | ok a s₂ =>
        rw [hInside] at hEntry hBody
        simp only [List.mem_cons, List.not_mem_nil, or_false] at hEntry
        obtain rfl | rfl := hEntry
        · -- The body gives back the openers it was given, and the first of them was pushed for this enclosure.
          have hTop : s₂.openers.head? = some ⟨opening, e⟩ := by rw [hBody.2, hOpeners, List.head?_cons]
          exact Entry.sound_closing (hBody.1.trans hDepth) hTop
        · exact Entry.sound_passing_of_eq (hp ▸ Ends.depth_eq hWhole)

end Parser

end GraphQLSyntax
