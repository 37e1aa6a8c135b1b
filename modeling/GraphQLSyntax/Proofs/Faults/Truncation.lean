import GraphQLSyntax.Proofs.Faults.Document
import GraphQLSyntax.Proofs.Parsing.Language

/-!
# Texts that are cut off

A text that a longer one was cut off from is right or ends too early. When the first token that is missing
closes a bracket, the error names the bracket that it would have closed.
-/

set_option autoImplicit false

namespace GraphQLSyntax

section

variable {symbol : GrammarSymbol} {p q tail ts us : List Token} {e : ParseError}

/-! ## What is left when the input ends -/

theorem front_append_end {rest : List Token} (hMore : ∀ t ∈ rest, t.kind ≠ .endOfInput)
    (h : front (rest ++ tail) = none) : rest = [] := by
  cases rest with
  | nil => rfl
  | cons t rest =>
    rw [List.cons_append, front_cons (hMore t (.head rest))] at h
    cases h

/-- Nothing is consumed from the end of the input on. -/
theorem append_of_consumed (hTail : front tail = none) (hReadable : ∀ t ∈ ts, t.kind.Readable)
    (h : p ++ tail = ts ++ us) : ∃ rest, p = ts ++ rest ∧ us = rest ++ tail := by
  obtain ⟨vs, rfl, hEnd⟩ | hRest := List.append_eq_append_iff.mp h
  · cases vs with
    | nil => exact ⟨[], by simp, by simpa using hEnd.symm⟩
    | cons v vs =>
      rw [hEnd, List.cons_append, front_cons ?_] at hTail
      · cases hTail
      · intro hKind
        have hToken := hReadable v (by simp)
        rw [hKind] at hToken
        exact hToken.elim
  · exact hRest

theorem mem_prospectOf_of_parse {c : Construct} (hMore : ∀ t ∈ p, t.kind ≠ .endOfInput)
    (hTail : front tail = none) (h : parseTokens (p ++ tail) symbol = .ok c) :
    p ∈ prospectOf symbol maxDepth ∧ ∀ t ∈ p, t.kind.Readable := by
  obtain ⟨us, rest, hRest, hAtEnd, hDerives, hReadable, hNest⟩ := parseTokens_eq_ok h
  obtain ⟨left, rfl, rfl⟩ := append_of_consumed hTail hReadable hRest
  obtain rfl : left = [] :=
    front_append_end (fun t ht => hMore t (List.mem_append_right us ht)) ((isEnd_iff_front _).mp hAtEnd)
  rw [List.append_nil]
  exact ⟨⟨c, hDerives, Nat.cast_le.mpr hNest⟩, hReadable⟩

/-! ## Failures of what is cut off -/

/-- How the first part fails when the second is missing. If the second part starts with a closing punctuator,
it is the bracket that stays open which is to blame. -/
inductive CutOff (p q : List Token) (e : ParseError) : Prop
  | ended : (∃ expected, e.kind = .unexpectedEnd expected) →
    (∀ k, front q = some k → k.isClosing = false) → CutOff p q e
  | unclosed {o : Opener} {opened : List Token} : openAfter [] p = some (o.token :: opened) →
    e = o.unclosedError (.emptyAt ((p.getLast?.map fun t => t.span.stop).getD .origin)) →
    (∀ k, front q = some k → k.isClosing = true → k = .punctuator o.enclosure.closing) → CutOff p q e
  | reservedOn {before : List Token} {dots on : Token} : p = before ++ [dots, on] → dots.Is .ellipsis →
    on.IsWord "on" → e.kind = .reservedName "on" .fragmentName →
    (∀ k, front q = some k → k.isClosing = false) → CutOff p q e

/-- A token that is complained about is one of those that are there. -/
theorem left_of_token {rest vs : List Token} {t : Token} (hTail : front tail = none)
    (hNext : rest ++ tail = t :: vs) (hKind : t.kind ≠ .endOfInput) :
    ∃ left, rest = t :: left ∧ vs = left ++ tail := by
  cases rest with
  | nil =>
    rw [List.nil_append] at hNext
    rw [hNext, front_cons hKind] at hTail
    cases hTail
  | cons u left =>
    obtain ⟨rfl, rfl⟩ := List.cons_eq_cons.mp hNext
    exact ⟨left, rfl, rfl⟩

/-- A name that follows the word, and that would make it right, can only be missing if the word comes last. -/
theorem cutOff_reservedOn {dots on : Token} {left : List Token} (hLast : ts.getLast? = some dots)
    (hDots : dots.Is .ellipsis) (hOn : on.IsWord "on") (hKind : e.kind = .reservedName "on" .fragmentName)
    (hAfter : ∀ k, front (left ++ tail) = some k → ¬ Parser.isNameKind k)
    (hName : ¬ ∀ k, front (left ++ q) = some k → ¬ Parser.isNameKind k) : CutOff (ts ++ on :: left) q e := by
  cases left with
  | cons u left => exact absurd (fun k hFront => hAfter k ((front_append tail q).trans hFront)) hName
  | nil =>
    obtain ⟨before, rfl⟩ := List.getLast?_eq_some_iff.mp hLast
    refine .reservedOn (by rw [List.append_assoc]; rfl) hDots hOn hKind fun k hFront => ?_
    by_contra hIs
    refine hName fun k' hFront' hIsName => ?_
    rw [List.nil_append, hFront] at hFront'
    cases hFront'
    exact hIs (Parser.isClosing_of_isNameKind hIsName)

/-- A failure at one of the tokens that are there would be one of the whole text too. -/
theorem cutOff_of_failure (hMore : ∀ t ∈ p, t.kind ≠ .endOfInput)
    (hReadable : ∀ t ∈ p, t.kind.Readable) (hWord : p ++ q ∈ prospectOf symbol maxDepth)
    (hTail : front tail = none) (h : Parser.Failure (.ofTokens (p ++ tail)) (prospectOf symbol) e) :
    CutOff p q e := by
  obtain ⟨ts, us, hFails⟩ := h
  obtain ⟨rest, rfl, rfl⟩ := append_of_consumed hTail hFails.readable hFails.rest
  rw [List.append_assoc] at hWord
  have hWhole : ts ++ (rest ++ q) ∈ prospectOf symbol ⊤ := by
    obtain ⟨c, hDerives, -⟩ := hWord
    exact ⟨c, hDerives, le_top⟩
  have hAtToken : ∀ {t : Token} {vs : List Token}, rest ++ tail = t :: vs → t.kind ≠ .endOfInput →
      ¬ Parser.Blocked (prospectOf symbol) ts (rest ++ tail) := by
    intro t vs hNext hKind hBlocked
    obtain ⟨left, rfl, -⟩ := left_of_token hTail hNext hKind
    exact hBlocked _ (.inl (front_append q tail)) hWhole
  -- At the end a closing punctuator would do for what is missing.
  have hAtEnd : front (rest ++ tail) = none → rest = [] ∧
      ∀ k, front q = some k → k.isClosing = true → Resembles q (rest ++ tail) := by
    intro hEnd
    exact ⟨front_append_end (fun t ht => hMore t (List.mem_append_right ts ht)) hEnd,
      fun k hFront hClosing => .inr ⟨hEnd, k, hFront, hClosing⟩⟩
  cases hFails.verdict with
  | unexpected hNext hKind _ _ hBlocked => exact absurd hBlocked (hAtToken hNext hKind)
  | refused hNext hKind _ hBlocked => exact absurd hBlocked (hAtToken hNext hKind)
  | unreadable hNext hKind hUnreadable _ =>
    obtain ⟨left, rfl, -⟩ := left_of_token hTail hNext hKind
    exact absurd (hReadable _ (List.mem_append_right ts (.head left))) hUnreadable
  | ended hEnd hKind hBlocked =>
    obtain ⟨rfl, hClosing⟩ := hAtEnd hEnd
    refine .ended hKind fun k hFront => ?_
    by_contra hIs
    exact hBlocked q (hClosing k hFront (by simpa using hIs)) hWhole
  | @unclosed o opened hEnd hOpened hError hClosed =>
    obtain ⟨rfl, hClosing⟩ := hAtEnd hEnd
    rw [List.append_nil]
    refine .unclosed hOpened ?_ fun k hFront hIs => ?_
    · rw [hError, Parser.endAfter]
      cases ts.getLast? <;> rfl
    · have hSame := hClosed q (hClosing k hFront hIs) hWhole
      rw [hFront] at hSame
      exact Option.some.inj hSame
  | @reservedOn dots on after hLast hDots hNext hOn hKind hAfter hNone =>
    have hOnKind : on.kind ≠ .endOfInput := by
      rw [hOn]
      simp
    obtain ⟨left, rfl, rfl⟩ := left_of_token hTail hNext hOnKind
    exact cutOff_reservedOn hLast hDots hOn hKind hAfter fun hFront => hNone _ hFront hWhole
  | deep hKind hNone =>
    refine absurd hWord (hNone (rest ++ q) ?_)
    cases rest with
    | nil => exact .inr hTail
    | cons t rest => exact .inl (.inl (front_append q tail))

/-- What a parse cannot succeed at: a closing punctuator is still missing. -/
theorem not_ok_of_closing {c : Construct} {closer : Token} {after : List Token}
    (hMore : ∀ t ∈ p, t.kind ≠ .endOfInput) (hTail : front tail = none)
    (hWord : p ++ closer :: after ∈ prospectOf symbol maxDepth) (hClosing : closer.kind.isClosing = true) :
    parseTokens (p ++ tail) symbol ≠ .ok c := by
  intro h
  obtain ⟨c, ts, s, -, hPasses, hEnd⟩ | ⟨e, hError, -⟩ := parseTokens_cases (p ++ tail) symbol
  · obtain ⟨rest, rfl, hRest⟩ := append_of_consumed hTail hPasses.moves.readable hPasses.moves.rest
    rw [hRest] at hEnd
    obtain rfl := front_append_end (fun t ht => hMore t (List.mem_append_right ts ht)) hEnd
    rw [List.append_nil] at hWord
    have hCloser : front (closer :: after) = some closer.kind := front_cons (by
      intro hKind
      rw [hKind] at hClosing
      cases hClosing) after
    rw [List.nil_append] at hRest
    have hMem := hPasses.confined (.inr ⟨by rw [hRest, hTail], closer.kind, hCloser, hClosing⟩) hWord
    cases mem_one.mp hMem
  · rw [h] at hError
    cases hError

end

/-- The bracket that a closing token closes when it comes after some others. -/
def ClosesAfter (p : List Token) (closer opener : Token) : Prop :=
  ∃ before inside, p = before ++ opener :: inside ∧ Balanced inside ∧
    opener.kind.partner? = some closer.kind

/-- What is left of a text that is cut off is parsed or ends too early. When a closing punctuator comes first in
what is cut off, the bracket that it closes is reported as open, where the input ends, with a note at the
bracket. -/
theorem parseTokens_truncated (symbol : GrammarSymbol) (p q tail tail' : List Token) (c : Construct)
    (hMore : ∀ t ∈ p ++ q, t.kind ≠ .endOfInput) (hTail : front tail = none) (hTail' : front tail' = none)
    (h : parseTokens (p ++ q ++ tail) symbol = .ok c) :
    (∀ e, parseTokens (p ++ tail') symbol = .error e →
      (∃ expected, e.kind = .unexpectedEnd expected) ∨ (∃ delimiter, e.kind = .unclosedDelimiter delimiter) ∨
      (e.kind = .reservedName "on" .fragmentName ∧
        ∃ before dots on, p = before ++ [dots, on] ∧ dots.Is .ellipsis ∧ on.IsWord "on")) ∧
    ∀ closer after, q = closer :: after → closer.kind.isClosing = true →
      ∃ e opener sign note last, parseTokens (p ++ tail') symbol = .error e ∧
        ClosesAfter p closer opener ∧ opener.Is sign ∧ e.kind = .unclosedDelimiter sign.text ∧
        p.getLast? = some last ∧ e.span = .emptyAt last.span.stop ∧
        e.notes = [note] ∧ note.span = some opener.span := by
  obtain ⟨hWord, hReadable⟩ := mem_prospectOf_of_parse hMore hTail h
  have hMoreLeft : ∀ t ∈ p, t.kind ≠ .endOfInput := fun t ht => hMore t (List.mem_append_left q ht)
  have hCutOff : ∀ e, parseTokens (p ++ tail') symbol = .error e → CutOff p q e := fun e hError =>
    cutOff_of_failure hMoreLeft (fun t ht => hReadable t (List.mem_append_left q ht)) hWord hTail'
      (parseTokens_failure hError)
  constructor
  · intro e hError
    cases hCutOff e hError with
    | ended hKind => exact .inl hKind
    | unclosed _ hUnclosed =>
      rw [hUnclosed]
      exact .inr (.inl ⟨_, rfl⟩)
    | reservedOn hTokens hDots hOn hKind => exact .inr (.inr ⟨hKind, _, _, _, hTokens, hDots, hOn⟩)
  · rintro closer after rfl hClosing
    have hFront : front (closer :: after) = some closer.kind :=
      front_cons (hMore closer (List.mem_append_right p (.head after))) after
    cases hParse : parseTokens (p ++ tail') symbol with
    | ok c => exact absurd hParse (not_ok_of_closing hMoreLeft hTail' hWord hClosing)
    | error e =>
      cases hCutOff e hParse with
      | ended _ hOpen =>
        rw [hOpen _ hFront] at hClosing
        cases hClosing
      | reservedOn _ _ _ _ hOpen =>
        rw [hOpen _ hFront] at hClosing
        cases hClosing
      | @unclosed o opened hOpened hError hCloser =>
        have hPartner : o.token.kind.partner? = some closer.kind := by
          rw [hCloser _ hFront hClosing]
          exact o.enclosure.opening_partner
        cases unclosed_of_openAfter hOpened with
        | @some before inside _ _ _ hInside =>
          obtain ⟨last, hLast⟩ : ∃ last, (before ++ o.token :: inside).getLast? = some last :=
            ⟨_, List.getLast?_eq_some_getLast (by simp)⟩
          rw [hLast] at hError
          subst hError
          exact ⟨_, o.token, _, _, last, rfl, ⟨before, inside, rfl, hInside, hPartner⟩, rfl, rfl, hLast, rfl,
            rfl, rfl⟩

/-- A list that is cut off inside arguments. -/
theorem parseTokens_truncated_list :
    let token (kind : TokenKind) (n : Nat) : Token := ⟨kind, .emptyAt ⟨0, n, some n, n⟩⟩
    let p := [token (.punctuator .braceOpen) 0, token (.name "a") 1, token (.punctuator .parenOpen) 2,
      token (.name "b") 3, token (.punctuator .colon) 4, token (.punctuator .bracketOpen) 5]
    let closer := token (.punctuator .bracketClose) 6
    let q := [closer, token (.punctuator .parenClose) 7, token (.punctuator .braceClose) 8]
    (∃ c, parseTokens (p ++ q) .selectionSet = .ok c) ∧
    ∃ e opener sign note last, parseTokens (p ++ [token .endOfInput 6]) .selectionSet = .error e ∧
      ClosesAfter p closer opener ∧ opener.Is sign ∧ e.kind = .unclosedDelimiter sign.text ∧
      p.getLast? = some last ∧ e.span = .emptyAt last.span.stop ∧
      e.notes = [note] ∧ note.span = some opener.span := by
  intro token p closer q
  have hOk : (parseTokens (p ++ q ++ []) .selectionSet).isOk = true := by decide +kernel
  cases hParse : parseTokens (p ++ q ++ []) .selectionSet with
  | error e =>
    rw [hParse] at hOk
    cases hOk
  | ok c =>
    have hMore : ∀ t ∈ p ++ q, t.kind ≠ .endOfInput := by decide
    obtain ⟨-, hClosed⟩ := parseTokens_truncated .selectionSet p q [] [token .endOfInput 6] c hMore rfl rfl hParse
    rw [List.append_nil] at hParse
    exact ⟨⟨c, hParse⟩, hClosed closer _ rfl rfl⟩

end GraphQLSyntax
