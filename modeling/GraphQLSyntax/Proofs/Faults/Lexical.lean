import GraphQLSyntax.Proofs.Faults.Accounts
import GraphQLSyntax.Proofs.Lexing.Order
import GraphQLSyntax.Proofs.Parsing.Language

/-!
# Faults of the text

A fault of the text is never overlooked, and what is reported instead of the first one stands before it. Only the limit
of nesting may be reported in its place.
-/

set_option autoImplicit false

namespace GraphQLSyntax

theorem TokenKind.Readable.isError_eq_false {k : TokenKind} (h : k.Readable) : k.isError = false := by
  cases k with
  | error message notes => exact h.elim
  | _ => rfl

namespace Parser

variable {s : ParserState} {ts us : List Token} {t : Token} {e : ParseError}

/-- An error where no fault comes next starts no later than the next token. -/
theorem Cause.start_lt {n : Nat} (hCause : Cause s ts (t :: us) e) (hError : t.kind.isError = false)
    (hEnd : t.kind ≠ .endOfInput) (hConsumed : ∀ u ∈ ts, u.span.start.offset < n)
    (hNext : t.span.start.offset < n) : e.span.start.offset < n := by
  have hMore : front (t :: us) ≠ none := by
    rw [front_cons hEnd]
    nofun
  cases hCause with
  | fault hKind =>
    rw [hKind] at hError
    cases hError
  | next _ _ _ hSpan => rwa [hSpan]
  | consumed hu _ hStart =>
    rw [hStart]
    exact hConsumed _ hu
  | ended hNone => exact absurd hNone hMore
  | unclosed hNone => exact absurd hNone hMore
  | deep => exact hNext

/-- An error where a fault comes next is about the fault, or about a token before it, or there is no room. -/
theorem Cause.of_fault {message : String} {notes : List Note} (hCause : Cause s ts (t :: us) e)
    (ht : t.kind = .error message notes) :
    e = .ofLexical message t.span notes ∨ (∃ u ∈ ts, e.span.start = u.span.start) ∨ e = .tooDeep t.span := by
  have hMore : front (t :: us) ≠ none := by
    rw [front_cons (by rw [ht]; nofun)]
    nofun
  cases hCause with
  | fault hKind =>
    rw [ht] at hKind
    cases hKind
    exact .inl rfl
  | next hError =>
    rw [ht] at hError
    cases hError
  | consumed hu _ hStart => exact .inr (.inl ⟨_, hu, hStart⟩)
  | ended hNone => exact absurd hNone hMore
  | unclosed hNone => exact absurd hNone hMore
  | deep => exact .inr (.inr rfl)

end Parser

section

variable {file : Option Path} {source : String} {symbol : GrammarSymbol} {ts us : List Token} {t : Token}

/-- The end of the input is the last token, so it stands before no other. -/
theorem ne_endOfInput_of_lex (h : lex file source = ts ++ t :: us) : ∀ u ∈ ts, u.kind ≠ .endOfInput := by
  obtain ⟨init, hSnoc, hInit⟩ := lex_endAt file source
  have hPrefix : ts ++ (t :: us).dropLast = init := by
    have hDrop := congrArg List.dropLast (h.symm.trans hSnoc)
    rwa [List.dropLast_append_of_ne_nil (List.cons_ne_nil t us), List.dropLast_concat] at hDrop
  intro u hu
  exact hInit u (hPrefix ▸ List.mem_append_left _ hu)

/-- What can be read in front of a fault are tokens that stand before it, and one of those or the fault itself comes
next. -/
theorem next_of_fault {vs ws : List Token} (hTokens : vs ++ ws = ts ++ t :: us)
    (hReadable : ∀ v ∈ vs, v.kind.Readable) (ht : t.kind.isError = true) :
    (∀ v ∈ vs, v ∈ ts) ∧ ∃ u ws', ws = u :: ws' ∧ (u = t ∨ u ∈ ts) := by
  obtain ⟨bs, rfl, rfl⟩ | ⟨bs, rfl, hBack⟩ := List.append_eq_append_iff.mp hTokens
  · refine ⟨fun v hv => List.mem_append_left bs hv, ?_⟩
    cases bs with
    | nil => exact ⟨t, us, rfl, .inl rfl⟩
    | cons b bs => exact ⟨b, bs ++ t :: us, rfl, .inr (List.mem_append_right vs (.head bs))⟩
  · cases bs with
    | nil =>
      refine ⟨fun v hv => ?_, t, us, hBack.symm, .inl rfl⟩
      rwa [List.append_nil] at hv
    | cons b bs =>
      obtain ⟨rfl, -⟩ := List.cons_eq_cons.mp hBack
      have hb : t.kind.Readable := hReadable t (List.mem_append_right ts (.head bs))
      rw [hb.isError_eq_false] at ht
      cases ht

/-- A fault of the text is never overlooked. The error is about the first one or starts before it, unless there is no
room for another construct where the fault stands. -/
theorem parse_of_fault (h : (lex file source).find? (·.kind.isError) = some t) :
    ∃ message notes e, t.kind = .error message notes ∧ parse file source symbol = .error e ∧
      (e = ⟨message, t.span, .lexical, notes⟩ ∨ e.span.start.offset < t.span.start.offset ∨
        e = ⟨"maximum nesting depth exceeded", t.span, .invalidSyntax, []⟩) := by
  obtain ⟨hError, ts, us, hTokens, hFirst⟩ := List.find?_eq_some_iff_append.mp h
  simp only [Bool.not_eq_true'] at hFirst
  obtain ⟨message, notes, ht⟩ : ∃ message notes, t.kind = .error message notes := by
    cases hKind : t.kind with
    | error message notes => exact ⟨message, notes, rfl⟩
    | _ =>
      rw [hKind] at hError
      cases hError
  cases hParse : parse file source symbol with
  | ok c =>
    rw [isError_of_parse hParse t (hTokens ▸ List.mem_append_right ts (.head us))] at hError
    cases hError
  | error e =>
    refine ⟨message, notes, e, ht, rfl, ?_⟩
    have hEnd := ne_endOfInput_of_lex hTokens
    have hBefore : ∀ u ∈ ts, u.span.start.offset < t.span.start.offset :=
      fun u hu => start_lt_of_lex hTokens hu (hFirst u hu) (hEnd u hu) (.head us)
    obtain ⟨vs, ws, hRest, hReadable, hCause⟩ := caused_of_parseTokens hParse
    obtain ⟨hConsumed, u, ws', rfl, hu⟩ := next_of_fault (hRest.symm.trans hTokens) hReadable hError
    have hEarlier : ∀ v ∈ vs, v.span.start.offset < t.span.start.offset := fun v hv => hBefore v (hConsumed v hv)
    -- The fault comes next, or a token in front of it that is none does.
    obtain rfl | hu := hu
    · obtain hFault | ⟨v, hv, hStart⟩ | hDeep := hCause.of_fault ht
      · exact .inl hFault
      · exact .inr (.inl (hStart ▸ hEarlier v hv))
      · exact .inr (.inr hDeep)
    · exact .inr (.inl (hCause.start_lt (hFirst u hu) (hEnd u hu) hEarlier (hBefore u hu)))

/-- The first of two stray characters in a selection set. -/
theorem parse_of_fault_stray :
    ∃ t, (lex none "\x7b a ^ ~ \x7d").find? (·.kind.isError) = some t ∧
      ∃ message notes e, t.kind = .error message notes ∧ parse none "\x7b a ^ ~ \x7d" .document = .error e ∧
        (e = ⟨message, t.span, .lexical, notes⟩ ∨ e.span.start.offset < t.span.start.offset ∨
          e = ⟨"maximum nesting depth exceeded", t.span, .invalidSyntax, []⟩) := by
  have hFault : ((lex none "\x7b a ^ ~ \x7d").find? (·.kind.isError)).isSome = true := by decide +kernel
  obtain ⟨t, ht⟩ := Option.isSome_iff_exists.mp hFault
  exact ⟨t, ht, parse_of_fault ht⟩

end

end GraphQLSyntax
