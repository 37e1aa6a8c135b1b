import GraphQLSyntax.Proofs.Faults.Accounts
import GraphQLSyntax.Proofs.Lexing.Order
import GraphQLSyntax.Proofs.Parsing.Language

/-!
# Errors at the end of the input

An open delimiter is reported where the last token ends. Whatever else is missing is reported where the text ends, which
is farther on if something is ignored there.
-/

set_option autoImplicit false

namespace GraphQLSyntax

/-- Where the last token before the end of the input ends, or the origin if there is none. -/
def lastStop (tokens : List Token) : Position :=
  (tokens.dropLast.getLast?.map fun t => t.span.stop).getD .origin

namespace Parser

variable {s : ParserState} {ts us : List Token} {e : ParseError}

theorem Cause.of_isAtEnd (hCause : Cause s ts us e) (hKind : e.kind.isAtEnd = true) :
    front us = none ∧ ((∃ expected, e.kind = .unexpectedEnd expected) ∧ e.span = frontSpan s ts us ∨
      (∃ delimiter, e.kind = .unclosedDelimiter delimiter) ∧ e.span = .emptyAt (endAfter s ts)) := by
  cases hCause with
  | fault => cases hKind
  | next _ _ hNone =>
    rw [hNone] at hKind
    cases hKind
  | consumed _ hNone =>
    rw [hNone] at hKind
    cases hKind
  | ended hFront hEnded hSpan => exact ⟨hFront, .inl ⟨⟨_, hEnded⟩, hSpan⟩⟩
  | unclosed hFront => exact ⟨hFront, .inr ⟨⟨_, rfl⟩, rfl⟩⟩
  | deep => cases hKind

end Parser

section

variable {file : Option Path} {source : String} {symbol : GrammarSymbol} {e : ParseError}

theorem span_of_isAtEnd (h : parse file source symbol = .error e) (hKind : e.kind.isAtEnd = true) :
    (∃ expected, e.kind = .unexpectedEnd expected) ∧
        e.span = (Token.endAt file (Mark.start.advance source.toList)).span ∨
      (∃ delimiter, e.kind = .unclosedDelimiter delimiter) ∧ e.span = .emptyAt (lastStop (lex file source)) := by
  obtain ⟨init, hLex, hInit⟩ := lex_endAt file source
  obtain ⟨ts, us, hRest, hReadable, hCause⟩ := caused_of_parseTokens h
  obtain ⟨hFront, hAtEnd⟩ := hCause.of_isAtEnd hKind
  have hTokens : init ++ [Token.endAt file (Mark.start.advance source.toList)] = ts ++ us := by
    rw [← hLex]
    exact hRest
  obtain rfl : ts = init :=
    eq_of_append_end rfl hInit hTokens hReadable ((isEnd_iff_front us).mpr hFront)
  obtain rfl := List.append_cancel_left hTokens
  obtain ⟨hExpected, hSpan⟩ | ⟨hDelimiter, hSpan⟩ := hAtEnd
  · exact .inl ⟨hExpected, hSpan⟩
  · refine .inr ⟨hDelimiter, ?_⟩
    rw [hSpan, hLex, lastStop, List.dropLast_concat, Parser.endAfter]
    cases ts.getLast? <;> rfl

/-- An error about an open delimiter stands where the last token ends, and any other error about the end of the input
where the text ends. -/
theorem parse_end_span (h : parse file source symbol = .error e) :
    (∀ delimiter, e.kind = .unclosedDelimiter delimiter → e.span = .emptyAt (lastStop (lex file source))) ∧
      ∀ expected, e.kind = .unexpectedEnd expected →
        e.span = ⟨(Mark.start.advance source.toList).position, (Mark.start.advance source.toList).position, file⟩ := by
  constructor
  · intro delimiter hKind
    obtain ⟨⟨expected, hEnded⟩, -⟩ | ⟨-, hSpan⟩ := span_of_isAtEnd h (by rw [hKind]; rfl)
    · rw [hKind] at hEnded
      cases hEnded
    · exact hSpan
  · intro expected hKind
    obtain ⟨-, hSpan⟩ | ⟨⟨delimiter, hUnclosed⟩, -⟩ := span_of_isAtEnd h (by rw [hKind]; rfl)
    · exact hSpan
    · rw [hKind] at hUnclosed
      cases hUnclosed

/-- A keyword with nothing but blanks behind it. -/
theorem parse_end_span_blanks :
    ∃ e, parse none "query  " .document = .error e ∧ e.kind = .unexpectedEnd ["\x7b"] ∧
      e.span = ⟨⟨0, 7, some 7, 7⟩, ⟨0, 7, some 7, 7⟩, none⟩ := by
  have hError : (reason? (parse none "query  " .document)).map ParseError.kind =
      some (.unexpectedEnd ["\x7b"]) := by decide +kernel
  obtain ⟨e, hReason, hKind⟩ := Option.map_eq_some_iff.mp hError
  have hParse := eq_error_of_reason hReason
  have hEnd : (Mark.start.advance "query  ".toList).position = ⟨0, 7, some 7, 7⟩ := by decide +kernel
  have hSpan := (parse_end_span hParse).2 _ hKind
  rw [hEnd] at hSpan
  exact ⟨e, hParse, hKind, hSpan⟩

/-- The blanks behind a keyword move the error away from it. -/
theorem parse_end_span_moved :
    ¬ ∀ (file : Option Path) (source : String) (symbol : GrammarSymbol) (e : ParseError),
      parse file source symbol = .error e → e.kind.isAtEnd = true →
        e.span.start = lastStop (lex file source) ∧ e.span.stop = lastStop (lex file source) := by
  intro hClaim
  have hMoved : (reason? (parse none "query  " .document)).map (fun e => (e.kind.isAtEnd, e.span.start.offset)) =
      some (true, 7) := by decide +kernel
  have hLast : (lastStop (lex none "query  ")).offset = 5 := by decide +kernel
  obtain ⟨e, hReason, hError⟩ := Option.map_eq_some_iff.mp hMoved
  obtain ⟨hAtEnd, hOffset⟩ := Prod.mk.inj hError
  have hStart := (hClaim none "query  " .document e (eq_error_of_reason hReason) hAtEnd).1
  rw [hStart, hLast] at hOffset
  cases hOffset

end

end GraphQLSyntax
