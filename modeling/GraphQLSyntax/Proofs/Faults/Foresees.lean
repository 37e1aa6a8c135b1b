import GraphQLSyntax.Proofs.Faults.Steps

/-!
# Foreseen parsers

A parser is foreseen by a prospect if it does what its phrases foretell, whatever is in prospect after them
and however deep it stands. Where a phrase could go on, what comes after must not start in the same way.
-/

set_option autoImplicit false

namespace GraphQLSyntax.Parser

variable {α β : Type} {s₀ s : ParserState} {P K K' A : Prospect} {os os' : List Opener} {room : Nat}
  {p : Parser α} {f : α → Parser β} {stop : List Punctuator} {C : TokenKind → Prop}

/-! ## Signs -/

def IsSign (ps : List Punctuator) (k : TokenKind) : Prop := ∃ p ∈ ps, k = .punctuator p

theorem IsSign.not_of_disjoint {ps qs : List Punctuator} (h : ∀ p ∈ ps, p ∉ qs) (k : TokenKind)
    (hk : IsSign ps k) : ¬ IsSign qs k := by
  obtain ⟨p, hp, rfl⟩ := hk
  rintro ⟨q, hq, hEq⟩
  cases hEq
  exact h p hp hq

theorem isNameKind.not_isSign {ps : List Punctuator} (k : TokenKind) (hk : isNameKind k) :
    ¬ IsSign ps k := by
  rintro ⟨p, -, rfl⟩
  cases hk

theorem IsSign.mono {ps qs : List Punctuator} (h : ∀ p ∈ ps, p ∈ qs) (k : TokenKind) (hk : IsSign ps k) :
    IsSign qs k := by
  obtain ⟨p, hp, rfl⟩ := hk
  exact ⟨p, h p hp, rfl⟩

theorem avoids_nil (K : Prospect) : Avoids K (IsSign []) := by
  rintro limit ts - k - ⟨p, hp, -⟩
  cases hp

theorem starts_sign (p : Punctuator) (K : Prospect) : Starts (sign p * K) (IsSign [p]) := by
  refine ((starts_tokenOf ?_).mul K).mono ?_
  · exact fun h => nomatch h
  · rintro k rfl
    exact ⟨p, .head _, rfl⟩

theorem isClosing_of_isNameKind {k : TokenKind} (hk : isNameKind k) : k.isClosing = false := by
  cases k with
  | punctuator => cases hk
  | _ => rfl

theorem isPlain_of_isNameKind {k : TokenKind} (hk : isNameKind k) : k.isPlain = true := by
  cases k with
  | punctuator => cases hk
  | _ => rfl

/-! ## Foreseen parsers -/

def Foresees (room : Nat) (p : Parser α) (A : Prospect) (stop : List Punctuator) : Prop :=
  ∀ ⦃s : ParserState⦄ ⦃K : Prospect⦄, s.room ≤ room → Completable (A * K) → Avoids K (IsSign stop) →
    Foretold s (A * K) s.openers K (p s)

theorem Foresees.call (hp : Foresees room p A stop) (h : Reached s₀ P os s (A * K))
    (hRoom : s₀.room ≤ room) (hK : Avoids K (IsSign stop)) : Foretold s₀ P os K (p s) := by
  have hRun := hp (h.room ▸ hRoom) h.completable hK
  rw [h.openers] at hRun
  exact .of_reached h hRun

theorem Foresees.bind (hp : Foresees room p A stop) (h : Reached s₀ P os s (A * K))
    (hRoom : s₀.room ≤ room) (hK : Avoids K (IsSign stop))
    (hf : ∀ a s₁, Reached s₀ P os s₁ K → Foretold s₀ P os' K' (f a s₁)) :
    Foretold s₀ P os' K' ((p >>= f) s) :=
  (hp.call h hRoom hK).bind hf

theorem Foresees.anti {room' : Nat} (hp : Foresees room p A stop) (hRoom : room' ≤ room) :
    Foresees room' p A stop :=
  fun _ _ h hCompletable hK => hp (Nat.le_trans h hRoom) hCompletable hK

theorem Foresees.widen {stop' : List Punctuator} (hp : Foresees room p A stop)
    (hStop : ∀ q ∈ stop, q ∈ stop') : Foresees room p A stop' :=
  fun _ _ hRoom hCompletable hK => hp hRoom hCompletable (hK.mono (IsSign.mono hStop))

theorem Foresees.map (hp : Foresees room p A stop) (g : α → β) :
    Foresees room (do return g (← p)) A stop :=
  fun _ _ hRoom hCompletable hK => (hp hRoom hCompletable hK).map g

theorem Foresees.congr {B : Prospect} (hp : Foresees room p A stop) (h : B = A) :
    Foresees room p B stop := h ▸ hp

/-! ## Alternatives -/

/-- A part of what is in prospect, which the next token belongs to. -/
theorem Reached.branch {B D : Prospect} {k : TokenKind} (h : Reached s₀ P os s (D * K))
    (hB : Completable B) (hD : Starts D C) (hFront : front s.rest = some k)
    (hSub : ∀ {limit : ℕ∞} {ts : List Token}, ts ∈ B limit → ts ∈ D limit)
    (hOthers : ∀ {limit : ℕ∞} {ts : List Token}, ts ∈ D limit → front ts = some k → ts ∈ B limit) :
    Reached s₀ P os s (B * K) := by
  refine h.choose (hB.mul h.completable.right) ?_ hFront ?_
  · intro limit ts hts
    obtain ⟨us, hus, vs, hvs, rfl⟩ := mem_mul.mp hts
    exact mem_mul.mpr ⟨us, hSub hus, vs, hvs, rfl⟩
  · intro limit ts hts hNext
    obtain ⟨us, hus, vs, hvs, rfl⟩ := mem_mul.mp hts
    refine mem_mul.mpr ⟨us, hOthers hus ?_, vs, hvs, rfl⟩
    obtain ⟨k', hFront', -⟩ := hD hus
    cases us with
    | nil => cases hFront'
    | cons u us => rw [← hNext, ← List.append_nil (u :: us), front_append [] vs, List.append_nil]

/-- One of several productions, which the next token belongs to. -/
theorem Reached.alternative {k : TokenKind} {D : Production β} {E : Production α} {nest : α → Nat}
    {nest' : β → Nat} (g : α → β) (h : Reached s₀ P os s (phrases D nest' * K))
    (hFront : front s.rest = some k) (hE : Completable (phrases E nest)) (hD : Starts (phrases D nest') C)
    (hSub : ∀ {ts : List Token} {a : α}, E ts a → D ts (g a) ∧ nest' (g a) = nest a)
    (hOthers : ∀ {ts : List Token} {b : β}, D ts b → front ts = some k → ∃ a, E ts a ∧ g a = b) :
    Reached s₀ P os s (phrases E nest * K) := by
  refine h.branch hE hD hFront ?_ ?_
  · rintro limit ts ⟨a, ha, hNest⟩
    obtain ⟨hPhrase, hEq⟩ := hSub ha
    exact ⟨g a, hPhrase, by rw [hEq]; exact hNest⟩
  · rintro limit ts ⟨b, hb, hNest⟩ hNext
    obtain ⟨a, ha, rfl⟩ := hOthers hb hNext
    exact ⟨a, ha, by rw [← (hSub ha).2]; exact hNest⟩

/-- One of several productions, which the next token does not belong to. At the end of the input, there has
to be as much room for it as for the others. -/
theorem Reached.otherwise {D : Production β} {E : Production α} {nest : α → Nat} {nest' : β → Nat}
    {S : TokenKind → Prop} (g : α → β) (h : Reached s₀ P os s (phrases D nest' * K))
    (hNext : ∀ k, front s.rest = some k → ¬ S k) (hOpen : ∀ k, S k → k.isClosing = false)
    (hE : Completable (phrases E nest))
    (hSub : ∀ {ts : List Token} {a : α}, E ts a → D ts (g a) ∧ nest' (g a) = nest a)
    (hOthers : ∀ {ts : List Token} {b : β}, D ts b → (∀ k, front ts = some k → ¬ S k) →
      ∃ a, E ts a ∧ g a = b)
    (hSome : ∀ {limit : ℕ∞} {ts : List Token}, ts ∈ phrases D nest' limit →
      ∃ us, us ∈ phrases E nest limit) :
    Reached s₀ P os s (phrases E nest * K) := by
  refine h.narrow (hE.mul h.completable.right) ?_ ?_ ?_
  · intro ts hts
    obtain ⟨us, ⟨a, ha, hNest⟩, vs, hvs, rfl⟩ := mem_mul.mp hts
    obtain ⟨hPhrase, hEq⟩ := hSub ha
    exact mem_mul.mpr ⟨us, ⟨g a, hPhrase, by rw [hEq]; exact hNest⟩, vs, hvs, rfl⟩
  · intro limit ts hResembles hts
    obtain ⟨us, ⟨b, hb, hNest⟩, vs, hvs, rfl⟩ := mem_mul.mp hts
    have hNotNext : ∀ k, front us = some k → ¬ S k := by
      intro k hFront hk
      refine hNext k (hResembles.of_front ?_ (hOpen k hk)) hk
      cases us with
      | nil => cases hFront
      | cons u us => rwa [front_append vs [], List.append_nil]
    obtain ⟨a, ha, rfl⟩ := hOthers hb hNotNext
    exact mem_mul.mpr ⟨us, ⟨a, ha, by rw [← (hSub ha).2]; exact hNest⟩, vs, hvs, rfl⟩
  · intro _ limit hZero
    ext ts
    refine ⟨fun hts => ?_, fun hts => absurd hts (Language.notMem_zero ts)⟩
    obtain ⟨us, hus, vs, hvs, rfl⟩ := mem_mul.mp hts
    obtain ⟨ws, hws⟩ := hSome hus
    have hMem : ws ++ vs ∈ (phrases E nest * K) limit := mem_mul.mpr ⟨ws, hws, vs, hvs, rfl⟩
    rw [hZero] at hMem
    exact absurd hMem (Language.notMem_zero _)

/-! ## Options -/

/-- An optional part, which is parsed if its first token comes next. -/
theorem Foretold.ifNext {look : Parser Bool} {test : List Token → Bool} {taken skipped : Parser β}
    (hLook : Looks look test) (hTest : ∀ ts, test ts = true ↔ ∃ k, front ts = some k ∧ C k)
    (h : Reached s₀ P os s ((1 + A) * K)) (hA : Completable A) (hStarts : Starts A C)
    (hOpen : ∀ k, C k → k.isClosing = false) (hK : Avoids K C)
    (hTake : ∀ s₁ k, front s₁.rest = some k → C k → Reached s₀ P os s₁ (A * K) →
      Foretold s₀ P os' K' (taken s₁))
    (hSkip : ∀ s₁, Reached s₀ P os s₁ K → Foretold s₀ P os' K' (skipped s₁)) :
    Foretold s₀ P os' K' ((do if ← look then taken else skipped) s) := by
  refine Foretold.peek hLook h ?_
  intro s₁ h₁ hSame
  rw [← hSame]
  cases hIs : test s₁.rest with
  | true =>
    obtain ⟨k, hFront, hk⟩ := (hTest _).mp hIs
    exact hTake s₁ k hFront hk (h₁.take hA hFront fun hMem hvs => hK hMem k hvs hk)
  | false =>
    refine hSkip s₁ (h₁.skip hStarts hOpen ?_)
    intro k hFront hk
    have hNext := (hTest s₁.rest).mpr ⟨k, hFront, hk⟩
    rw [hIs] at hNext
    cases hNext

theorem nextIs_iff_isSign {q : Punctuator} (ts : List Token) :
    nextIs q ts = true ↔ ∃ k, front ts = some k ∧ IsSign [q] k := by
  rw [nextIs_iff_front]
  constructor
  · intro h
    exact ⟨_, h, q, .head _, rfl⟩
  · rintro ⟨k, hFront, p, hp, rfl⟩
    rw [List.mem_singleton.mp hp] at hFront
    exact hFront

theorem isClosing_of_isSign {q : Punctuator} (hq : (TokenKind.punctuator q).isClosing = false)
    (k : TokenKind) (hk : IsSign [q] k) : k.isClosing = false := by
  obtain ⟨p, hp, rfl⟩ := hk
  rw [List.mem_singleton.mp hp]
  exact hq

theorem Foresees.optional {q : Punctuator} {a : α} (hp : Foresees room p A stop) (hA : Completable A)
    (hStarts : Starts A (IsSign [q])) (hq : (TokenKind.punctuator q).isClosing = false) :
    Foresees room (do if ← peekIs q then p else return a) (1 + A) (q :: stop) := by
  intro s K hRoom hCompletable hK
  have hSub : ∀ r ∈ stop, r ∈ q :: stop := fun r => List.mem_cons_of_mem q
  refine Foretold.ifNext (looks_peekIs q) nextIs_iff_isSign (.refl s hCompletable) hA hStarts
    (isClosing_of_isSign hq) ?_ ?_ ?_
  · exact hK.mono (IsSign.mono fun r hr => by rw [List.mem_singleton.mp hr]; exact .head _)
  · intro s₁ _ _ _ h
    exact hp.call h hRoom (hK.mono (IsSign.mono hSub))
  · intro s₁ h
    exact h

/-! ## Names -/

theorem phrases_name : phrases NamePhrase (fun _ => 0) = tokenOf isNameKind := by
  refine phrases_token fun ts => ⟨?_, ?_⟩
  · rintro ⟨_, ⟨hText⟩⟩
    exact ⟨_, rfl, by rw [isNameKind, hText]; rfl⟩
  · rintro ⟨t, rfl, ht⟩
    obtain ⟨text, hText⟩ := Option.isSome_iff_exists.mp ht
    exact ⟨_, .mk hText⟩

theorem completable_name : Completable (tokenOf isNameKind) :=
  completable_tokenOf (k := .null) rfl trivial

theorem starts_name (K : Prospect) : Starts (tokenOf isNameKind * K) isNameKind :=
  (starts_tokenOf fun h => nomatch h).mul K

/-- A name, of which some may be out of the question. -/
theorem Foretold.name (h : Reached s₀ P os s (tokenOf C * K)) (hC : ∀ k, C k → isNameKind k)
    (hNext : ∀ k, front s.rest = some k → isNameKind k → C k) :
    Foretold s₀ P os K (Parser.name s) := by
  have hEnd : ¬ C .endOfInput := by
    intro hk
    cases hC _ hk
  rw [Parser.name]
  refine Foretold.peek looks_peekKind h ?_
  intro s₁ h₁ hSame
  rw [← hSame] at hNext ⊢
  cases hText : (nextKind s₁.rest).bind TokenKind.nameText? with
  | some text =>
    cases hRest : s₁.rest with
    | nil =>
      rw [hRest] at hText
      cases hText
    | cons t us =>
      rw [hRest, nextKind_cons, Option.bind_some] at hText
      have ht : isNameKind t.kind := by
        rw [isNameKind, hText]
        rfl
      have hFront : front s₁.rest = some t.kind := by
        rw [hRest]
        refine front_cons ?_ us
        intro hKind
        rw [hKind] at ht
        cases ht
      exact Foretold.next h₁ hRest (hNext _ hFront ht) (readable_of_isNameKind ht)
        (isPlain_of_isNameKind ht) fun s₂ h₂ => h₂
  | none =>
    refine h₁.unexpected (blocked_of_starts ((starts_tokenOf hEnd).mul K) ?_ ?_) _
    · intro k hFront hk
      have hName := hC k hk
      rw [nextKind_of_front hFront, Option.bind_some] at hText
      rw [isNameKind, hText] at hName
      cases hName
    · exact fun k hk => isClosing_of_isNameKind (hC k hk)

theorem foresees_name : Foresees maxDepth name (tokenOf isNameKind) [] := by
  intro s K hRoom hCompletable hK
  exact Foretold.name (.refl s hCompletable) (fun _ hk => hk) fun _ _ hk => hk

/-! ## Loops -/

/-- A parser whose phrases are not empty consumes something. -/
theorem Reached.progress {s' : ParserState} (h : Reached s (A * K) os s' K) (hA : Starts A C) :
    s'.rest.length < s.rest.length := by
  obtain ⟨ts, hPasses⟩ := h
  rw [hPasses.moves.rest, List.length_append]
  cases ts with
  | cons => simp
  | nil =>
    -- else what is in prospect afterwards would have ever shorter words
    have hNone : ∀ vs, vs ∉ K ⊤ := by
      intro vs
      induction hLength : vs.length using Nat.strong_induction_on generalizing vs with
      | _ n ih =>
        intro hvs
        obtain ⟨us, hus, ws, hws, rfl⟩ := mem_mul.mp (hPasses.completes vs hvs)
        obtain ⟨k, hFront, -⟩ := hA hus
        have hNonempty : us ≠ [] := by
          rintro rfl
          cases hFront
        refine ih ws.length ?_ ws rfl hws
        have hPositive := List.length_pos_iff.mpr hNonempty
        rw [← hLength, List.length_append]
        omega
    obtain ⟨vs, hvs, -⟩ := hPasses.completable
    exact absurd hvs (hNone vs)

/-- A loop goes on before every item and stops at the end of the input. -/
structure Loop (room : Nat) (more : Parser Bool) (go : Option TokenKind → Bool) (item : Parser α)
    (A R : Prospect) (stop : List Punctuator) (C : TokenKind → Prop) : Prop where
  more : Looks more fun ts => go (nextKind ts)
  item : Foresees room item A stop
  completable : Completable A
  starts : Starts A C
  unroll : R = 1 + A * R
  goes : ∀ k, C k → go (some k) = true
  opens : ∀ k, C k → k.isClosing = false
  ends : ∀ ts : List Token, front ts = none → go (nextKind ts) = false

section

variable {more : Parser Bool} {go : Option TokenKind → Bool} {item : Parser α} {R : Prospect}

/-- Items are followed by another one or by what comes after the loop. -/
theorem Loop.avoids {S : TokenKind → Prop} (hLoop : Loop room more go item A R stop C)
    (hItems : ∀ k, C k → ¬ S k) (hK : Avoids K S) : Avoids (R * K) S := by
  rw [hLoop.unroll]
  refine Avoids.optional ?_ hK
  rw [mul_assoc]
  exact (hLoop.starts.mul _).avoids hItems

theorem Loop.completable_unrolled (hLoop : Loop room more go item A R stop C) :
    Completable (A * R) := by
  refine hLoop.completable.mul ?_
  rw [hLoop.unroll]
  exact completable_optional _

theorem Loop.done (hLoop : Loop room more go item A R stop C) (h : Reached s₀ P os s (R * K))
    (hEnd : go (nextKind s.rest) = false) : Reached s₀ P os s K := by
  rw [hLoop.unroll] at h
  refine h.skip (hLoop.starts.mul R) hLoop.opens ?_
  intro k hFront hk
  rw [nextKind_of_front hFront, hLoop.goes k hk] at hEnd
  cases hEnd

theorem Loop.front_of_go (hLoop : Loop room more go item A R stop C) {ts : List Token}
    (hGo : go (nextKind ts) = true) : ∃ k, front ts = some k := by
  cases hFront : front ts with
  | some k => exact ⟨k, rfl⟩
  | none =>
    rw [hLoop.ends ts hFront] at hGo
    cases hGo

theorem Loop.again (hLoop : Loop room more go item A R stop C)
    (hK : ∀ {limit : ℕ∞} {vs : List Token}, vs ∈ K limit → go (nextKind vs) = false)
    (h : Reached s₀ P os s (R * K)) (hGo : go (nextKind s.rest) = true) :
    Reached s₀ P os s (A * (R * K)) := by
  obtain ⟨k, hFront⟩ := hLoop.front_of_go hGo
  rw [hLoop.unroll] at h
  have hTaken := h.take hLoop.completable_unrolled hFront ?_
  · rwa [mul_assoc] at hTaken
  · intro limit vs hvs hNext
    have hDone := hK hvs
    rw [nextKind_of_front hNext, ← nextKind_of_front hFront, hGo] at hDone
    cases hDone

theorem Loop.next {f : α → Parser β} (hLoop : Loop room more go item A R stop C)
    (hStop : Avoids (R * K) (IsSign stop)) (hRoom : s₀.room ≤ room)
    (h : Reached s₀ P os s (A * (R * K)))
    (hf : ∀ a s₁, s₁.rest.length < s.rest.length → Reached s₀ P os s₁ (R * K) →
      Foretold s₀ P os' K' (f a s₁)) : Foretold s₀ P os' K' ((item >>= f) s) := by
  have hItem := hLoop.item (h.room ▸ hRoom) h.completable hStop
  cases hRun : item s with
  | error e s₁ =>
    rw [hRun] at hItem
    rw [bind_of_error hRun]
    exact h.failure hItem
  | ok a s₁ =>
    rw [hRun] at hItem
    rw [bind_of_ok hRun]
    have hReached : Reached s (A * (R * K)) s.openers s₁ (R * K) := hItem
    refine hf a s₁ (hReached.progress hLoop.starts) (h.trans ?_)
    rwa [h.openers] at hReached

theorem Loop.collect (hLoop : Loop room more go item A R stop C)
    (hK : ∀ {limit : ℕ∞} {vs : List Token}, vs ∈ K limit → go (nextKind vs) = false)
    (hStop : Avoids (R * K) (IsSign stop)) (hRoom : s₀.room ≤ room) (tokens : List Token) :
    ∀ {items : List α} {s : ParserState}, s.rest.length ≤ tokens.length → Reached s₀ P os s (R * K) →
      Foretold s₀ P os K (Parser.collect more item tokens items s) := by
  induction tokens with
  | nil =>
    intro items s hLength h
    have hRest : s.rest = [] := List.length_eq_zero_iff.mp (Nat.le_zero.mp hLength)
    have hEnd : go (nextKind s.rest) = false := hLoop.ends _ (by rw [hRest]; rfl)
    rw [Parser.collect]
    refine Foretold.peek hLoop.more h ?_
    intro s₁ h₁ hSame
    rw [hEnd]
    rw [← hSame] at hEnd
    exact hLoop.done h₁ hEnd
  | cons _ tokens ih =>
    intro items s hLength h
    rw [Parser.collect]
    refine Foretold.peek hLoop.more h ?_
    intro s₁ h₁ hSame
    rw [← hSame] at hLength ⊢
    cases hGo : go (nextKind s₁.rest) with
    | false => exact hLoop.done h₁ hGo
    | true =>
      refine hLoop.next hStop hRoom (hLoop.again hK h₁ hGo) ?_
      intro a s₂ hShorter h₂
      exact ih (by rw [List.length_cons] at hLength; omega) h₂

theorem Loop.repeatWhile (hLoop : Loop room more go item A R stop C)
    (hK : ∀ {limit : ℕ∞} {vs : List Token}, vs ∈ K limit → go (nextKind vs) = false)
    (hStop : Avoids (R * K) (IsSign stop)) (hRoom : s₀.room ≤ room) (h : Reached s₀ P os s (R * K)) :
    Foretold s₀ P os K (Parser.repeatWhile more item s) :=
  hLoop.collect hK hStop hRoom s.rest (Nat.le_refl _) h

/-- A loop that must have an item, and has one. -/
theorem Loop.repeatSome (hLoop : Loop room more go item A R stop C)
    (hK : ∀ {limit : ℕ∞} {vs : List Token}, vs ∈ K limit → go (nextKind vs) = false)
    (hStop : Avoids (R * K) (IsSign stop)) (hRoom : s₀.room ≤ room)
    (h : Reached s₀ P os s (A * (R * K))) (hGo : go (nextKind s.rest) = true) :
    Foretold s₀ P os K (Parser.repeatWhile more item s) := by
  change Foretold s₀ P os K (Parser.collect more item s.rest [] s)
  cases hRest : s.rest with
  | nil =>
    obtain ⟨k, hFront⟩ := hLoop.front_of_go hGo
    rw [hRest] at hFront
    cases hFront
  | cons t us =>
    rw [Parser.collect]
    refine Foretold.peek hLoop.more h ?_
    intro s₁ h₁ hSame
    rw [hGo]
    refine hLoop.next hStop hRoom h₁ ?_
    intro a s₂ hShorter h₂
    refine hLoop.collect hK hStop hRoom us ?_ h₂
    rw [hSame, hRest, List.length_cons] at hShorter
    omega

/-- A loop that need not have an item, and has none. -/
theorem Loop.repeatNone {f : List α → Parser β} (hLoop : Loop room more go item A R stop C)
    (h : Reached s₀ P os s K') (hEnd : go (nextKind s.rest) = false)
    (hf : ∀ s₁, Reached s₀ P os s₁ K' → s₁.rest = s.rest → Foretold s₀ P os' K (f [] s₁)) :
    Foretold s₀ P os' K ((Parser.repeatWhile more item >>= f) s) := by
  obtain ⟨s₁, hRun, hMoves, hOpeners⟩ := hLoop.more s
  dsimp only at hRun
  rw [hEnd] at hRun
  have hNone : Parser.repeatWhile more item s = .ok [] s₁ := by
    change Parser.collect more item s.rest [] s = _
    cases s.rest with
    | nil =>
      rw [Parser.collect, bind_of_ok hRun]
      rfl
    | cons t us =>
      rw [Parser.collect, bind_of_ok hRun]
      rfl
  rw [bind_of_ok hNone]
  exact hf s₁ (h.look hMoves hOpeners) (by rw [hMoves.rest, List.nil_append])

end

/-! ## Nesting -/

theorem limit_cases (limit : ℕ∞) : limit = 0 ∨ ∃ below, limit = below + 1 := by
  cases limit using ENat.recTopCoe with
  | top => exact .inr ⟨⊤, rfl⟩
  | coe n =>
    cases n with
    | zero => exact .inl rfl
    | succ n => exact .inr ⟨n, rfl⟩

/-- A prospect one level deeper. -/
def inner (P : Prospect) : Prospect := fun limit => P (limit + 1)

/-- Inside, a phrase is nested one level less deep. -/
theorem inner_phrases_succ (D : Production α) (nest : α → Nat) :
    inner (phrases D fun a => nest a + 1) = phrases D nest := by
  ext limit ts
  constructor
  · rintro ⟨a, ha, hNest⟩
    refine ⟨a, ha, ?_⟩
    rw [Nat.cast_succ] at hNest
    exact (ENat.add_le_add_iff_right ENat.one_ne_top).mp hNest
  · rintro ⟨a, ha, hNest⟩
    refine ⟨a, ha, ?_⟩
    rw [Nat.cast_succ]
    exact (ENat.add_le_add_iff_right ENat.one_ne_top).mpr hNest

theorem phrases_succ_zero (D : Production α) (nest : α → Nat) :
    phrases D (fun a => nest a + 1) 0 = 0 := by
  ext ts
  constructor
  · rintro ⟨a, -, hNest⟩
    rw [Nat.cast_succ] at hNest
    exact absurd hNest (by simp)
  · intro hts
    exact absurd hts (Language.notMem_zero ts)

def deeper (s : ParserState) : ParserState := { s with depth := s.depth + 1 }

def shallower (s : ParserState) : ParserState := { s with depth := s.depth - 1 }

theorem Passes.shallower {Q : Prospect} {s' : ParserState} {ts : List Token}
    (h : Passes (deeper s) (inner P) ts os s' (inner Q)) (hZero : P 0 = 0) :
    Passes s P ts os (shallower s') Q where
  moves := by
    refine ⟨h.moves.rest, ?_, h.moves.lastEnd, h.moves.readable⟩
    simp only [Parser.shallower, h.moves.depth]
    exact Nat.add_sub_cancel _ _
  openers := h.openers
  brackets := h.brackets
  completable := h.completable
  completes := h.completes
  confined := by
    intro limit vs hvs hMem
    obtain rfl | ⟨below, rfl⟩ := limit_cases limit
    · rw [hZero] at hMem
      exact absurd hMem (Language.notMem_zero _)
    · exact h.confined hvs hMem
  barren := by
    intro hEnd limit hNone vs hMem
    obtain rfl | ⟨below, rfl⟩ := limit_cases limit
    · rw [hZero] at hMem
      exact Language.notMem_zero _ hMem
    · exact h.barren hEnd hNone vs hMem

theorem FailsAfter.shallower {e : ParseError} {ts us : List Token}
    (h : FailsAfter (deeper s) (inner P) ts us e) (hDepth : s.depth < maxDepth) :
    FailsAfter s P ts us e where
  rest := h.rest
  readable := h.readable
  completable := h.completable
  placed := h.placed
  verdict := by
    cases h.verdict with
    | unexpected hNext hMore hKind hSpan hNone => exact .unexpected hNext hMore hKind hSpan hNone
    | ended hEnd hKind hNone => exact .ended hEnd hKind hNone
    | unclosed hEnd hOpened hError hClosing => exact .unclosed hEnd hOpened hError hClosing
    | refused hNext hMore hKind hNone => exact .refused hNext hMore hKind hNone
    | unreadable hNext hMore hReadable hUnread => exact .unreadable hNext hMore hReadable hUnread
    | reservedOn hLast hDots hNext hOn hKind hRest hNone =>
      exact .reservedOn hLast hDots hNext hOn hKind hRest hNone
    | deep hKind hNone =>
      refine .deep hKind ?_
      intro vs hvs hMem
      refine hNone vs hvs ?_
      have hRoom : s.room = (deeper s).room + 1 := by
        simp only [ParserState.room, deeper]
        omega
      rw [hRoom] at hMem
      exact hMem

theorem foresees_tooDeep (hZero : A 0 = 0) : Foresees 0 (tooDeep : Parser α) A stop := by
  intro s K hRoom hCompletable hK
  refine (Reached.refl s hCompletable).throwHere
    (fun span => ⟨"maximum nesting depth exceeded", span, .invalidSyntax, []⟩) (fun _ _ => rfl)
    (fun _ => rfl) ?_
  intro span
  refine .deep rfl ?_
  intro vs _ hMem
  rw [Nat.le_zero.mp hRoom] at hMem
  change [] ++ vs ∈ A 0 * K 0 at hMem
  rw [hZero, zero_mul] at hMem
  exact Language.notMem_zero _ hMem

theorem nested_of_ok {p : Parser α} {a : α} {s₁ : ParserState} (hDepth : s.depth < maxDepth)
    (h : p (deeper s) = .ok a s₁) : nested p s = .ok a (shallower s₁) := by
  rw [deeper] at h
  rw [nested, if_pos hDepth, h]
  rfl

theorem nested_of_error {p : Parser α} {e : ParseError} {s₁ : ParserState} (hDepth : s.depth < maxDepth)
    (h : p (deeper s) = .error e s₁) : nested p s = .error e (shallower s₁) := by
  rw [deeper] at h
  rw [nested, if_pos hDepth, h]
  rfl

theorem Foresees.nested {B : Prospect} (hp : Foresees room p A stop) (hInner : inner B = A)
    (hZero : B 0 = 0) : Foresees (room + 1) (nested p) B stop := by
  intro s K hRoom hCompletable hK
  have hZero' : (B * K) 0 = 0 := by
    change B 0 * K 0 = 0
    rw [hZero, zero_mul]
  have hStep : inner (B * K) = A * inner K := by rw [← hInner]; rfl
  by_cases hDepth : s.depth < maxDepth
  · have hRoom' : (deeper s).room ≤ room := by
      simp only [ParserState.room, deeper] at hRoom ⊢
      omega
    have hRun := hp hRoom' (K := inner K) (by rw [← hStep]; exact hCompletable) fun _ _ hts => hK hts
    rw [← hStep] at hRun
    cases hResult : p (deeper s) with
    | ok a s₁ =>
      rw [hResult] at hRun
      obtain ⟨ts, hPasses⟩ := hRun
      rw [nested_of_ok hDepth hResult]
      exact ⟨ts, hPasses.shallower hZero'⟩
    | error e s₁ =>
      rw [hResult] at hRun
      obtain ⟨ts, us, hFails⟩ := hRun
      rw [nested_of_error hDepth hResult]
      exact ⟨ts, us, hFails.shallower hDepth⟩
  · rw [Parser.nested, if_neg hDepth]
    refine foresees_tooDeep hZero ?_ hCompletable hK
    simp only [ParserState.room]
    omega

end GraphQLSyntax.Parser
