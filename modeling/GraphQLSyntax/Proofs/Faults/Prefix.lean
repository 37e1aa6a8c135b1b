import GraphQLSyntax.Proofs.Faults.Document

/-!
# The first wrong token

What stands before the token that an error complains about can be completed, and with that token it can no
longer. What an error finds cut off by the end of the input can be completed too.
-/

set_option autoImplicit false

namespace GraphQLSyntax

/-- The tokens are derived from the symbol as some construct, whatever its nesting and its literals. -/
def Derivable (symbol : GrammarSymbol) (ts : List Token) : Prop := ∃ c, Derives symbol ts c

/-- Some more tokens make up what is derived. -/
def Viable (symbol : GrammarSymbol) (ts : List Token) : Prop :=
  ∃ us, WellFormed us ∧ Derivable symbol (ts ++ us)

section

variable {symbol : GrammarSymbol} {tokens ts us : List Token} {e : ParseError}

theorem mem_prospectOf_top : ts ∈ prospectOf symbol ⊤ ↔ Derivable symbol ts :=
  ⟨fun ⟨c, hDerives, _⟩ => ⟨c, hDerives⟩, fun ⟨c, hDerives⟩ => ⟨c, hDerives, le_top⟩⟩

/-- The tokens before the end of the input. -/
def beforeEnd (tokens : List Token) : List Token :=
  tokens.takeWhile fun t => t.kind != .endOfInput

/-- What is consumed before the end is all there is before it. -/
theorem beforeEnd_append (hReadable : ∀ t ∈ ts, t.kind.Readable) (us : List Token) :
    beforeEnd (ts ++ us) = ts ++ beforeEnd us := by
  refine List.takeWhile_append_of_pos fun t ht => ?_
  rw [bne_iff_ne]
  intro hKind
  have hToken := hReadable t ht
  rw [hKind] at hToken
  exact hToken

theorem beforeEnd_of_front_none (h : front us = none) : beforeEnd us = [] := by
  cases us with
  | nil => rfl
  | cons u us =>
    have hEnd := (isEnd_iff_front (u :: us)).mpr h
    rw [nextKind_cons, Parser.isEnd, beq_iff_eq] at hEnd
    simp [beforeEnd, hEnd]

theorem beforeEnd_cons {t : Token} (ht : t.kind ≠ .endOfInput) (us : List Token) :
    beforeEnd (t :: us) = t :: beforeEnd us :=
  List.takeWhile_cons_of_pos (bne_iff_ne.mpr ht)

namespace Parser

variable {s : ParserState}

theorem Blocked.not_derivable (h : Blocked (prospectOf symbol) ts us) {vs : List Token}
    (hvs : Resembles vs us) : ¬ Derivable symbol (ts ++ vs) :=
  fun hDerivable => h vs hvs (mem_prospectOf_top.mpr hDerivable)

theorem FailsAfter.viable (h : FailsAfter s (prospectOf symbol) ts us e) : Viable symbol ts := by
  obtain ⟨vs, hMem, hWell⟩ := h.completable
  exact ⟨vs, hWell, mem_prospectOf_top.mp hMem⟩

/-- The token that is complained about is the first that cannot be right. -/
theorem FailsAfter.wrong_token (h : FailsAfter s (prospectOf symbol) ts us e) {expected : List String}
    {found : String} (hKind : e.kind = .unexpectedToken expected found) :
    ∃ t rest, us = t :: rest ∧ t.kind ≠ .endOfInput ∧ e.span = t.span ∧
      ∀ vs, ¬ Derivable symbol (ts ++ t :: vs) := by
  have hMisplaced : e.kind.isMisplacement = true := by
    rw [hKind]
    rfl
  obtain ⟨t, rest, hNext, hMore, -, hSpan, hBlocked⟩ | ⟨-, ⟨_, hEnded⟩, -⟩ | ⟨o, -, hError, -⟩ :=
    h.verdict.of_misplacement hMisplaced
  · refine ⟨t, rest, hNext, hMore, hSpan, fun vs => hBlocked.not_derivable ?_⟩
    rw [hNext]
    exact .inl rfl
  · rw [hEnded] at hKind
    cases hKind
  · rw [hError] at hKind
    cases hKind

/-- An input that is cut off has no token too many, and some too few. -/
theorem FailsAfter.cut_off (h : FailsAfter s (prospectOf symbol) ts us e)
    (hKind : (∃ expected, e.kind = .unexpectedEnd expected) ∨
      ∃ delimiter, e.kind = .unclosedDelimiter delimiter) :
    front us = none ∧ ¬ Derivable symbol ts := by
  have hMisplaced : e.kind.isMisplacement = true := by
    obtain ⟨_, hKind⟩ | ⟨_, hKind⟩ := hKind <;> rw [hKind] <;> rfl
  obtain ⟨_, _, -, -, ⟨_, _, hUnexpected⟩, -⟩ | ⟨hEnd, -, hBlocked⟩ | ⟨o, hEnd, -, hClosing⟩ :=
    h.verdict.of_misplacement hMisplaced
  · rw [hUnexpected] at hKind
    obtain ⟨_, hKind⟩ | ⟨_, hKind⟩ := hKind <;> cases hKind
  · have hNone : ¬ Derivable symbol (ts ++ []) := hBlocked.not_derivable (.inl hEnd.symm)
    exact ⟨hEnd, by rwa [List.append_nil] at hNone⟩
  · refine ⟨hEnd, fun hDerivable => ?_⟩
    rw [← mem_prospectOf_top, ← List.append_nil ts] at hDerivable
    cases hClosing [] (.inl hEnd.symm) hDerivable

end Parser

end

/-- An unexpected token is the first one that cannot be right: what stands before it can be completed, and
together with it nothing can. When the input ends too early, all of it can be completed, and is not complete. -/
theorem parseTokens_error_earliest (symbol : GrammarSymbol) (tokens : List Token) (e : ParseError)
    (h : parseTokens tokens symbol = .error e) :
    (∀ expected found, e.kind = .unexpectedToken expected found →
      ∃ before t after, beforeEnd tokens = before ++ t :: after ∧ e.span = t.span ∧
        Viable symbol before ∧ ∀ us, ¬ Derivable symbol (before ++ t :: us)) ∧
    ((∃ expected, e.kind = .unexpectedEnd expected) ∨ (∃ delimiter, e.kind = .unclosedDelimiter delimiter) →
      Viable symbol (beforeEnd tokens) ∧ ¬ Derivable symbol (beforeEnd tokens)) := by
  obtain ⟨ts, us, hFails⟩ := parseTokens_failure h
  have hTokens : tokens = ts ++ us := hFails.rest
  have hBefore : beforeEnd tokens = ts ++ beforeEnd us := by
    rw [hTokens, beforeEnd_append hFails.readable]
  constructor
  · intro expected found hKind
    obtain ⟨t, rest, hNext, hMore, hSpan, hNone⟩ := hFails.wrong_token hKind
    refine ⟨ts, t, beforeEnd rest, ?_, hSpan, hFails.viable, hNone⟩
    rw [hBefore, hNext, beforeEnd_cons hMore]
  · intro hKind
    obtain ⟨hEnd, hNone⟩ := hFails.cut_off hKind
    rw [hBefore, beforeEnd_of_front_none hEnd, List.append_nil]
    exact ⟨hFails.viable, hNone⟩

/-- A parenthesis where a selection set would have to go on. -/
theorem parseTokens_error_earliest_mismatched :
    let token (kind : TokenKind) (n : Nat) : Token := ⟨kind, .emptyAt ⟨0, n, some n, n⟩⟩
    let ts := [token (.punctuator .braceOpen) 0, token (.name "a") 1, token (.punctuator .parenClose) 2,
      token (.punctuator .braceClose) 3]
    ∃ e, parseTokens (ts ++ [token .endOfInput 4]) .selectionSet = .error e ∧ e.span.start.offset = 2 ∧
      ∃ before t after, ts = before ++ t :: after ∧ e.span = t.span ∧ Viable .selectionSet before ∧
        ∀ us, ¬ Derivable .selectionSet (before ++ t :: us) := by
  intro token ts
  have hError : reason? (parseTokens (ts ++ [token .endOfInput 4]) .selectionSet) =
      some (.unexpected (token (.punctuator .parenClose) 2) .name) := by decide +kernel
  have hParse := eq_error_of_reason hError
  exact ⟨_, hParse, rfl, (parseTokens_error_earliest .selectionSet _ _ hParse).1 ["name"] ")" rfl⟩

end GraphQLSyntax
