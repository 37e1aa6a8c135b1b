import Mathlib.Computability.Language
import Mathlib.Data.ENat.Basic
import GraphQLSyntax.Proofs.Grammar.Nesting
import GraphQLSyntax.Proofs.Lexing.Spelling
import GraphQLSyntax.Proofs.Parsing.Implements

/-!
# Prospects

A prospect says what may still come: the token lists that can be derived with some nesting at most. The
prospects of the parts of a construct multiply to its own, and alternatives add up, so that productions
become equations between languages.
-/

set_option autoImplicit false

namespace GraphQLSyntax

/-! ## What comes next -/

/-- The kind of the next token, unless the input ends before it. -/
def front (ts : List Token) : Option TokenKind :=
  (nextKind ts).filter (· != .endOfInput)

@[simp] theorem front_nil : front [] = none := rfl

theorem front_cons {t : Token} (ht : t.kind ≠ .endOfInput) (ts : List Token) :
    front (t :: ts) = some t.kind := by
  simp [front, Option.filter, ht]

theorem front_append {t : Token} {ts : List Token} (us vs : List Token) :
    front (t :: ts ++ us) = front (t :: ts ++ vs) := rfl

theorem nextKind_of_front {ts : List Token} {k : TokenKind} (h : front ts = some k) :
    nextKind ts = some k := (Option.filter_eq_some_iff.mp h).1

theorem front_ne_end (ts : List Token) : front ts ≠ some .endOfInput := by
  intro h
  have hKind := (Option.filter_eq_some_iff.mp h).2
  simp at hKind

theorem cons_of_front {ts : List Token} {k : TokenKind} (h : front ts = some k) :
    ∃ t us, ts = t :: us ∧ t.kind = k ∧ k ≠ .endOfInput := by
  cases ts with
  | nil => cases h
  | cons t us =>
    have hKind := nextKind_of_front h
    rw [nextKind_cons, Option.some.injEq] at hKind
    refine ⟨t, us, rfl, hKind, ?_⟩
    rintro rfl
    exact front_ne_end _ h

theorem isEnd_iff_front (ts : List Token) : Parser.isEnd (nextKind ts) = true ↔ front ts = none := by
  cases ts with
  | nil => simp [Parser.isEnd]
  | cons t ts =>
    by_cases ht : t.kind = .endOfInput
    · simp [Parser.isEnd, front, Option.filter, ht]
    · simp [Parser.isEnd, front_cons ht, ht]

/-- The closing punctuator that belongs to an opening one. -/
def Punctuator.partner? : Punctuator → Option Punctuator
  | parenOpen => some parenClose
  | bracketOpen => some bracketClose
  | braceOpen => some braceClose
  | _ => none

def TokenKind.isOpening : TokenKind → Bool
  | punctuator p => p.partner?.isSome
  | _ => false

def TokenKind.isClosing : TokenKind → Bool
  | punctuator .parenClose | punctuator .bracketClose | punctuator .braceClose => true
  | _ => false

/-- Both start alike, or nothing is left of the one and the other starts with a closing punctuator. -/
def Resembles (ts rest : List Token) : Prop :=
  front ts = front rest ∨ front rest = none ∧ ∃ k, front ts = some k ∧ k.isClosing = true

theorem Resembles.append {us vs : List Token} (h : Resembles us vs) :
    ∀ ts : List Token, Resembles (ts ++ us) (ts ++ vs)
  | [] => h
  | _ :: _ => .inl (front_append us vs)

theorem Resembles.front_eq {ts rest : List Token} {k : TokenKind} (h : Resembles ts rest)
    (hRest : front rest = some k) : front ts = some k := by
  obtain hEq | ⟨hNone, -⟩ := h
  · rw [hEq, hRest]
  · rw [hNone] at hRest
    cases hRest

theorem Resembles.of_front {ts rest : List Token} {k : TokenKind} (h : Resembles ts rest)
    (hFront : front ts = some k) (hOpen : k.isClosing = false) : front rest = some k := by
  obtain hEq | ⟨-, k', hk', hClosing⟩ := h
  · rw [← hEq, hFront]
  · rw [hFront] at hk'
    cases hk'
    rw [hOpen] at hClosing
    cases hClosing

/-! ## Prospects and their words -/

abbrev Prospect := ℕ∞ → Language Token

/-- The phrases of a production with a bound on their nesting. -/
def phrases {α : Type} (D : Production α) (nest : α → Nat) : Prospect := fun limit =>
  {ts | ∃ a, D ts a ∧ (nest a : ℕ∞) ≤ limit}

/-- A single token of a class. -/
def tokenOf (C : TokenKind → Prop) : Prospect := fun _ =>
  {ts | ∃ t, ts = [t] ∧ C t.kind}

abbrev sign (p : Punctuator) : Prospect := tokenOf (· = .punctuator p)

section

variable {A B K : Prospect} {C S : TokenKind → Prop} {limit : ℕ∞} {ts : List Token}

theorem mem_mul : ts ∈ (A * B) limit ↔ ∃ us ∈ A limit, ∃ vs ∈ B limit, us ++ vs = ts :=
  Language.mem_mul

theorem mem_add : ts ∈ (A + B) limit ↔ ts ∈ A limit ∨ ts ∈ B limit := Iff.rfl

theorem mem_one : ts ∈ (1 : Prospect) limit ↔ ts = [] := Iff.rfl

theorem mem_tokenOf_mul :
    ts ∈ (tokenOf C * K) limit ↔ ∃ t us, ts = t :: us ∧ C t.kind ∧ us ∈ K limit := by
  rw [mem_mul]
  constructor
  · rintro ⟨_, ⟨t, rfl, ht⟩, us, hus, rfl⟩
    exact ⟨t, us, rfl, ht, hus⟩
  · rintro ⟨t, us, rfl, ht, hus⟩
    exact ⟨[t], ⟨t, rfl, ht⟩, us, hus, rfl⟩

theorem mul_eq_zero (h : K limit = 0) : (A * K) limit = 0 := by
  change A limit * K limit = 0
  rw [h, mul_zero]

/-- A bound on the larger of two numbers bounds both. -/
theorem max_le_limit {m n : Nat} : ((max m n : Nat) : ℕ∞) ≤ limit ↔ (m : ℕ∞) ≤ limit ∧ (n : ℕ∞) ≤ limit := by
  rw [(Nat.mono_cast (α := ℕ∞)).map_max, max_le_iff]

/-! ## First tokens -/

/-- Every word starts with a token of the class. -/
def Starts (A : Prospect) (C : TokenKind → Prop) : Prop :=
  ∀ ⦃limit : ℕ∞⦄ ⦃ts : List Token⦄, ts ∈ A limit → ∃ k, front ts = some k ∧ C k

/-- No word starts with a token of the class. -/
def Avoids (K : Prospect) (C : TokenKind → Prop) : Prop :=
  ∀ ⦃limit : ℕ∞⦄ ⦃ts : List Token⦄, ts ∈ K limit → ∀ k, front ts = some k → ¬ C k

theorem Starts.mono (h : Starts A C) (hSub : ∀ k, C k → S k) : Starts A S := by
  intro limit ts hts
  obtain ⟨k, hFront, hk⟩ := h hts
  exact ⟨k, hFront, hSub k hk⟩

theorem Starts.mul (h : Starts A C) (K : Prospect) : Starts (A * K) C := by
  intro limit ts hts
  obtain ⟨us, hus, vs, -, rfl⟩ := mem_mul.mp hts
  obtain ⟨k, hFront, hk⟩ := h hus
  refine ⟨k, ?_, hk⟩
  cases us with
  | nil => cases hFront
  | cons u us => rwa [front_append vs [], List.append_nil]

theorem Starts.add (hA : Starts A C) (hB : Starts B C) : Starts (A + B) C := by
  rintro limit ts (hts | hts)
  · exact hA hts
  · exact hB hts

/-- An optional part in front of something. -/
theorem Starts.optional (hA : Starts A C) (hK : Starts K C) : Starts ((1 + A) * K) C := by
  rw [add_mul, one_mul]
  exact hK.add (hA.mul K)

theorem starts_tokenOf (h : ¬ C .endOfInput) : Starts (tokenOf C) C := by
  rintro limit _ ⟨t, rfl, ht⟩
  refine ⟨t.kind, front_cons ?_ [], ht⟩
  intro hEnd
  exact h (hEnd ▸ ht)

theorem starts_phrases {α : Type} {D : Production α} {nest : α → Nat} (h : Parser.StartsWith D C)
    (hEnd : ¬ C .endOfInput) : Starts (phrases D nest) C := by
  rintro limit ts ⟨a, hPhrase, -⟩
  obtain ⟨t, us, rfl, ht⟩ := h hPhrase
  refine ⟨t.kind, front_cons ?_ us, ht⟩
  intro hKind
  exact hEnd (hKind ▸ ht)

theorem Starts.avoids (h : Starts A C) (hDisjoint : ∀ k, C k → ¬ S k) : Avoids A S := by
  intro limit ts hts k hFront
  obtain ⟨k', hFront', hk'⟩ := h hts
  rw [hFront'] at hFront
  cases hFront
  exact hDisjoint k hk'

theorem Avoids.mono (h : Avoids K C) (hSub : ∀ k, S k → C k) : Avoids K S :=
  fun _ _ hts k hFront hk => h hts k hFront (hSub k hk)

theorem Avoids.add (hA : Avoids A C) (hB : Avoids B C) : Avoids (A + B) C := by
  rintro limit ts (hts | hts)
  · exact hA hts
  · exact hB hts

theorem Avoids.optional (hA : Avoids (A * K) C) (hK : Avoids K C) : Avoids ((1 + A) * K) C := by
  rw [add_mul, one_mul]
  exact hK.add hA

theorem avoids_one (C : TokenKind → Prop) : Avoids 1 C := by
  intro limit ts hts k hFront
  rw [mem_one.mp hts] at hFront
  cases hFront

/-! ## Completions -/

def WellFormed (ts : List Token) : Prop := ∀ t ∈ ts, t.kind.WellFormed

/-- There is a word, made of tokens that a text can have. -/
def Completable (A : Prospect) : Prop := ∃ ts, ts ∈ A ⊤ ∧ WellFormed ts

theorem Completable.right (h : Completable (A * K)) : Completable K := by
  obtain ⟨ts, hts, hWell⟩ := h
  obtain ⟨us, -, vs, hvs, rfl⟩ := mem_mul.mp hts
  exact ⟨vs, hvs, fun t ht => hWell t (List.mem_append_right us ht)⟩

theorem Completable.mul (hA : Completable A) (hK : Completable K) : Completable (A * K) := by
  obtain ⟨us, hus, hWell⟩ := hA
  obtain ⟨vs, hvs, hWell'⟩ := hK
  refine ⟨us ++ vs, mem_mul.mpr ⟨us, hus, vs, hvs, rfl⟩, ?_⟩
  intro t ht
  exact (List.mem_append.mp ht).elim (hWell t) (hWell' t)

theorem completable_one : Completable 1 := ⟨[], rfl, fun _ ht => nomatch ht⟩

theorem Completable.add_left (hA : Completable A) (B : Prospect) : Completable (A + B) := by
  obtain ⟨ts, hts, hWell⟩ := hA
  exact ⟨ts, .inl hts, hWell⟩

theorem completable_optional (A : Prospect) : Completable (1 + A) := completable_one.add_left A

theorem completable_tokenOf {k : TokenKind} (hk : C k) (hWell : k.WellFormed) :
    Completable (tokenOf C) := by
  refine ⟨[⟨k, .emptyAt .origin⟩], ⟨_, rfl, hk⟩, ?_⟩
  intro t ht
  rw [List.mem_singleton.mp ht]
  exact hWell

theorem completable_sign (p : Punctuator) : Completable (sign p) := completable_tokenOf rfl trivial

end

/-! ## Options, repetitions and enclosures -/

section

variable {α β : Type} {D : Production α} {nest : α → Nat}

theorem phrases_repeated : phrases (Repeated D) (deepest nest) =
    1 + phrases D nest * phrases (Repeated D) (deepest nest) := by
  ext limit ts
  rw [mem_add, mem_one, mem_mul]
  constructor
  · rintro ⟨_, hPhrases, hNest⟩
    cases hPhrases with
    | nil => exact .inl rfl
    | cons hPhrase hPhrases =>
      obtain ⟨hFirst, hOthers⟩ := max_le_limit.mp hNest
      exact .inr ⟨_, ⟨_, hPhrase, hFirst⟩, _, ⟨_, hPhrases, hOthers⟩, rfl⟩
  · rintro (rfl | ⟨us, ⟨a, hPhrase, hFirst⟩, vs, ⟨as, hPhrases, hOthers⟩, rfl⟩)
    · exact ⟨[], .nil, zero_le⟩
    · exact ⟨a :: as, .cons hPhrase hPhrases, max_le_limit.mpr ⟨hFirst, hOthers⟩⟩

theorem completable_repeated : Completable (phrases (Repeated D) (deepest nest)) := by
  rw [phrases_repeated]
  exact completable_optional _

theorem phrases_optional : phrases (Optional D) (optionalNesting nest) = 1 + phrases D nest := by
  ext limit ts
  rw [mem_add, mem_one]
  constructor
  · rintro ⟨_, hPhrase, hNest⟩
    cases hPhrase with
    | absent => exact .inl rfl
    | present hPhrase => exact .inr ⟨_, hPhrase, hNest⟩
  · rintro (rfl | ⟨a, hPhrase, hNest⟩)
    · exact ⟨none, .absent, zero_le⟩
    · exact ⟨some a, .present hPhrase, hNest⟩

theorem phrases_optionalList {D : Production (List α)} {nest : List α → Nat} (hNil : nest [] = 0) :
    phrases (OptionalList D) nest = 1 + phrases D nest := by
  ext limit ts
  rw [mem_add, mem_one]
  constructor
  · rintro ⟨_, hPhrase, hNest⟩
    cases hPhrase with
    | absent => exact .inl rfl
    | present hPhrase => exact .inr ⟨_, hPhrase, hNest⟩
  · rintro (rfl | ⟨as, hPhrase, hNest⟩)
    · exact ⟨[], .absent, by rw [hNil]; exact zero_le⟩
    · exact ⟨as, .present hPhrase, hNest⟩

/-- At least one item. -/
theorem phrases_repeated_some {E : Production (List α)}
    (hE : ∀ ts as, E ts as ↔ as ≠ [] ∧ Repeated D ts as) :
    phrases E (deepest nest) = phrases D nest * phrases (Repeated D) (deepest nest) := by
  ext limit ts
  rw [mem_mul]
  constructor
  · rintro ⟨as, hPhrase, hNest⟩
    obtain ⟨hSome, hPhrases⟩ := (hE ts as).mp hPhrase
    cases hPhrases with
    | nil => exact absurd rfl hSome
    | cons hItem hItems =>
      obtain ⟨hFirst, hOthers⟩ := max_le_limit.mp hNest
      exact ⟨_, ⟨_, hItem, hFirst⟩, _, ⟨_, hItems, hOthers⟩, rfl⟩
  · rintro ⟨us, ⟨a, hPhrase, hFirst⟩, vs, ⟨as, hPhrases, hOthers⟩, rfl⟩
    exact ⟨a :: as, (hE _ _).mpr ⟨List.cons_ne_nil a as, .cons hPhrase hPhrases⟩,
      max_le_limit.mpr ⟨hFirst, hOthers⟩⟩

/-- A production of single tokens. -/
theorem phrases_token {C : TokenKind → Prop}
    (h : ∀ ts, (∃ a, D ts a) ↔ ∃ t, ts = [t] ∧ C t.kind) : phrases D (fun _ => 0) = tokenOf C := by
  ext limit ts
  constructor
  · rintro ⟨a, hPhrase, -⟩
    exact (h ts).mp ⟨a, hPhrase⟩
  · intro hts
    obtain ⟨a, hPhrase⟩ := (h ts).mpr hts
    exact ⟨a, hPhrase, zero_le⟩

/-- The first tokens do not depend on how nesting is counted. -/
theorem Starts.renest {nest' : α → Nat} {C : TokenKind → Prop} (h : Starts (phrases D nest) C) :
    Starts (phrases D nest') C := by
  rintro limit ts ⟨a, ha, -⟩
  exact h ⟨a, ha, le_top⟩

theorem Completable.renest {nest' : α → Nat} (h : Completable (phrases D nest)) :
    Completable (phrases D nest') := by
  obtain ⟨ts, ⟨a, ha, -⟩, hWell⟩ := h
  exact ⟨ts, ⟨a, ha, le_top⟩, hWell⟩

/-- The same token lists, with other nodes of the same nesting. -/
theorem phrases_congr {E : Production β} {nest' : β → Nat}
    (h : ∀ ts n, (∃ b, E ts b ∧ nest' b = n) ↔ ∃ a, D ts a ∧ nest a = n) :
    phrases E nest' = phrases D nest := by
  ext limit ts
  constructor
  · rintro ⟨b, hb, hNest⟩
    obtain ⟨a, ha, hEq⟩ := (h ts _).mp ⟨b, hb, rfl⟩
    exact ⟨a, ha, hEq ▸ hNest⟩
  · rintro ⟨a, ha, hNest⟩
    obtain ⟨b, hb, hEq⟩ := (h ts _).mpr ⟨a, ha, rfl⟩
    exact ⟨b, hb, hEq ▸ hNest⟩

theorem phrases_enclosed {opening closing : Punctuator} :
    phrases (Enclosed opening closing D) (deepest nest) =
      sign opening * (phrases (Repeated D) (deepest nest) * sign closing) := by
  ext limit ts
  constructor
  · rintro ⟨as, ⟨hFirst, hPhrases, hLast⟩, hNest⟩
    exact mem_tokenOf_mul.mpr ⟨_, _, rfl, hFirst,
      mem_mul.mpr ⟨_, ⟨as, hPhrases, hNest⟩, [_], ⟨_, rfl, hLast⟩, rfl⟩⟩
  · intro hts
    obtain ⟨first, us, rfl, hFirst, hus⟩ := mem_tokenOf_mul.mp hts
    obtain ⟨vs, ⟨as, hPhrases, hNest⟩, _, ⟨last, rfl, hLast⟩, rfl⟩ := mem_mul.mp hus
    exact ⟨as, .mk hFirst hPhrases hLast, hNest⟩

end

end GraphQLSyntax
