import GraphQLSyntax.Proofs.Number.Size
import GraphQLSyntax.Proofs.Parsing.Language

/-!
# Number literals that are parsed by themselves

An integer literal has its value if that is in the range of 64 bits, and a float literal if it does not overflow. All
other reasons for which reading a number can fail are excluded by the grammar of the literals.
-/

set_option autoImplicit false

namespace GraphQLSyntax

namespace ParseError

def integerOverflow (raw : String) (span : Span) : ParseError :=
  ⟨"integer `" ++ raw ++ "` overflows 64-bit integer", span, .invalidValue (.int raw), []⟩

def notFinite (raw : String) (span : Span) : ParseError :=
  ⟨"float `" ++ raw ++ "` is not a finite number", span, .invalidValue (.float raw), []⟩

end ParseError

/-! ## Steps of a parser that fails -/

namespace Parser

section

variable {α β : Type} {p : Parser α} {f : α → Parser β} {s : ParserState} {a : α} {e : ParseError}

def StopsWith (p : Parser α) (s : ParserState) (e : ParseError) : Prop :=
  ∃ s', p s = .error e s'

theorem StopsWith.bind (h : StopsWith p s e) (f : α → Parser β) : StopsWith (p >>= f) s e := by
  obtain ⟨s', hRun⟩ := h
  exact ⟨s', bind_of_error hRun⟩

theorem Peeks.stopsWith (hp : Peeks p s a) (h : ∀ s₁, Moves s [] s₁ → StopsWith (f a) s₁ e) :
    StopsWith (p >>= f) s e := by
  obtain ⟨s₁, hRun, hMoves⟩ := hp
  obtain ⟨s', hFails⟩ := h s₁ hMoves
  exact ⟨s', by rw [bind_of_ok hRun, hFails]⟩

theorem StopsWith.nested (hDepth : s.depth < maxDepth) (h : StopsWith p { s with depth := s.depth + 1 } e) :
    StopsWith (nested p) s e := by
  obtain ⟨s', hRun⟩ := h
  exact ⟨_, by rw [Parser.nested, if_pos hDepth, hRun]⟩

theorem StopsWith.parseTokens {tokens : List Token} {symbol : GrammarSymbol} {make : α → Construct}
    (h : StopsWith p (.ofTokens tokens) e) (hSymbol : construct symbol = do return make (← p)) :
    parseTokens tokens symbol = .error e := by
  rw [GraphQLSyntax.parseTokens, result, EStateM.run, whole, hSymbol]
  obtain ⟨s', hRun⟩ := (h.bind fun a => return make a).bind fun c => do
    expectEnd
    return c
  rw [hRun]

end

section

variable {s : ParserState} {t : Token} {us : List Token} {raw : String}

theorem intValue_overflows (hRest : s.rest = t :: us) (hKind : t.kind = .int raw)
    (h : ¬ (TokenKind.int raw).Readable) : StopsWith intValue s (.integerOverflow raw t.span) := by
  obtain ⟨stream, hRun, -⟩ := next_cons hRest
  rw [intValue, StopsWith, bind_of_ok hRun]
  cases hRead : readInt64 raw.toList with
  | ok v => exact absurd ⟨v, hRead⟩ h
  | error fault =>
    simp only [hKind, hRead]
    exact ⟨_, rfl⟩

theorem floatValue_overflows (hRest : s.rest = t :: us) (hKind : t.kind = .float raw)
    (h : ¬ (TokenKind.float raw).Readable) : StopsWith floatValue s (.notFinite raw t.span) := by
  obtain ⟨stream, hRun, -⟩ := next_cons hRest
  rw [floatValue, StopsWith, bind_of_ok hRun]
  cases hRead : (Binary64.ofText? raw.toList).filter Binary64.isFinite with
  | some x => exact absurd ⟨x, Option.filter_eq_some_iff.mp hRead⟩ h
  | none =>
    simp only [hKind, hRead]
    exact ⟨_, rfl⟩

theorem value_overflows (hRest : s.rest = t :: us) (hKind : t.kind = .int raw) (hDepth : s.depth < maxDepth)
    (h : ¬ (TokenKind.int raw).Readable) : StopsWith (value .argument) s (.integerOverflow raw t.span) := by
  refine StopsWith.nested hDepth (Peeks.stopsWith (peekKind_peeks _) ?_)
  intro s₁ hMoves
  have hFirst : nextKind { s with depth := s.depth + 1 }.rest = some (.int raw) := by
    change nextKind s.rest = _
    rw [hRest, nextKind_cons, hKind]
  have hRest₁ : s₁.rest = t :: us := hMoves.rest.symm.trans hRest
  simp only [hFirst]
  exact (intValue_overflows hRest₁ hKind h).bind _

end

end Parser

/-! ## Texts with one token -/

section

variable {file : Option Path} {source : String} {t last : Token}

theorem lex_single (h : lex file source = [t, last]) (hError : t.kind.isError = false) :
    t.kind.WellFormed ∧ last.kind = .endOfInput ∧ t.span.slice? source = some (String.ofList t.kind.spelling) := by
  obtain ⟨ts, u, hTokens, hLast, hWell⟩ := @lexFrom_snoc file .start source.toList
  have hSplit : ts ++ [u] = [t] ++ [last] := hTokens.symm.trans h
  obtain ⟨rfl, hEnd⟩ := List.append_inj' hSplit rfl
  cases hEnd
  refine ⟨(hWell t List.mem_cons_self).2 hError, hLast, ?_⟩
  obtain ⟨ts, v, hTokens', -, hSegments⟩ := @segments_of_lexFrom file .start source.toList (by
    rw [hTokens]
    simpa [hLast] using ⟨hError, rfl⟩)
  have hSplit' : ts ++ [v] = [t] ++ [last] := hTokens'.symm.trans h
  obtain ⟨rfl, -⟩ := List.append_inj' hSplit' rfl
  exact hSegments.slice [] rfl rfl t List.mem_cons_self

variable {raw : String} {span : Span}

theorem parse_readable_int (h : lex file source = [⟨.int raw, span⟩, last]) (hReadable : (TokenKind.int raw).Readable) :
    parse file source .intValue = .ok (.intValue ⟨intLiteral raw, span⟩) ∧
      parse file source .value = .ok (.value (.int ⟨intLiteral raw, span⟩)) := by
  obtain ⟨-, hLast, -⟩ := lex_single h rfl
  have hAll : ∀ t ∈ [Token.mk (.int raw) span], t.kind.Readable := by simpa using hReadable
  have hPhrase : IntPhrase [⟨.int raw, span⟩] ⟨intLiteral raw, span⟩ := .mk rfl
  exact ⟨parse_of_derives h hLast hAll ⟨_, hPhrase, rfl⟩ (Nat.zero_le _),
    parse_of_derives h hLast hAll ⟨_, .int hPhrase, rfl⟩ (show 1 ≤ 64 by decide)⟩

theorem parse_unreadable_int (h : lex file source = [⟨.int raw, span⟩, last])
    (hReadable : ¬ (TokenKind.int raw).Readable) :
    parse file source .intValue = .error (.integerOverflow raw span) ∧
      parse file source .value = .error (.integerOverflow raw span) := by
  let s : ParserState := .ofTokens [⟨.int raw, span⟩, last]
  have hDepth : s.depth < maxDepth := show 0 < 64 by decide
  have hInt := @Parser.intValue_overflows s _ _ raw rfl rfl hReadable
  have hValue := @Parser.value_overflows s _ _ raw rfl rfl hDepth hReadable
  rw [parse, parse, h]
  exact ⟨hInt.parseTokens rfl, hValue.parseTokens rfl⟩

theorem parse_readable_float (h : lex file source = [⟨.float raw, span⟩, last]) {x : Binary64}
    (hRead : Binary64.ofText? raw.toList = some x) (hFinite : x.isFinite = true) :
    parse file source .floatValue = .ok (.floatValue ⟨x, span⟩) := by
  obtain ⟨-, hLast, -⟩ := lex_single h rfl
  have hAll : ∀ t ∈ [Token.mk (.float raw) span], t.kind.Readable := by simpa using ⟨x, hRead, hFinite⟩
  have hLiteral : floatLiteral raw = x := by rw [floatLiteral, hRead, Option.getD_some]
  have hPhrase : FloatPhrase [⟨.float raw, span⟩] ⟨x, span⟩ := by
    rw [← hLiteral]
    exact .mk rfl
  exact parse_of_derives h hLast hAll ⟨_, hPhrase, rfl⟩ (Nat.zero_le _)

theorem parse_unreadable_float (h : lex file source = [⟨.float raw, span⟩, last])
    (hReadable : ¬ (TokenKind.float raw).Readable) :
    parse file source .floatValue = .error (.notFinite raw span) := by
  let s : ParserState := .ofTokens [⟨.float raw, span⟩, last]
  have hFloat := @Parser.floatValue_overflows s _ _ raw rfl rfl hReadable
  rw [parse, h]
  exact hFloat.parseTokens rfl

end

/-- An integer is taken with its value or refused for it. A float is refused for its size and no other reason. Neither
is taken for the other. -/
theorem parse_number (file : Option Path) (source raw : String) (span : Span) (last : Token) :
    (lex file source = [⟨.int raw, span⟩, last] →
      span.slice? source = some raw ∧
      (-(Nat.pow 2 63 : Int) ≤ intLiteral raw ∧ intLiteral raw ≤ Nat.pow 2 63 - 1 →
        parse file source .intValue = .ok (.intValue ⟨intLiteral raw, span⟩) ∧
        parse file source .value = .ok (.value (.int ⟨intLiteral raw, span⟩))) ∧
      (intLiteral raw < -(Nat.pow 2 63 : Int) ∨ Nat.pow 2 63 - 1 < intLiteral raw →
        parse file source .intValue = .error (.integerOverflow raw span) ∧
        parse file source .value = .error (.integerOverflow raw span))) ∧
    (lex file source = [⟨.float raw, span⟩, last] →
      span.slice? source = some raw ∧ (∃ size, DenotesSize raw.toList size) ∧
      ∀ size, DenotesSize raw.toList size →
        (size < 2 ^ 1024 - 2 ^ 970 → ∃ x, Binary64.ofText? raw.toList = some x ∧ x.isFinite = true ∧
          parse file source .floatValue = .ok (.floatValue ⟨x, span⟩)) ∧
        (2 ^ 1024 - 2 ^ 970 ≤ size → parse file source .floatValue = .error (.notFinite raw span))) ∧
    ∀ rest, parseTokens (⟨.float raw, span⟩ :: rest) .intValue = .error (.unexpected ⟨.float raw, span⟩ .integer) ∧
      parseTokens (⟨.int raw, span⟩ :: rest) .floatValue = .error (.unexpected ⟨.int raw, span⟩ .float) := by
  refine ⟨fun h => ?_, fun h => ?_, fun rest => ?_⟩
  · obtain ⟨hText, -, hSlice⟩ := lex_single h rfl
    have hReadable : (TokenKind.int raw).Readable ↔ (TokenKind.int raw).Fits := TokenKind.readable_iff_fits hText
    refine ⟨by simpa [TokenKind.spelling] using hSlice, fun hRange => ?_, fun hRange => ?_⟩
    · exact parse_readable_int h (hReadable.mpr ⟨hRange.1, by omega⟩)
    · refine parse_unreadable_int h fun hRead => ?_
      obtain ⟨hLower, hUpper⟩ := hReadable.mp hRead
      omega
  · obtain ⟨hText, -, hSlice⟩ := lex_single h rfl
    refine ⟨by simpa [TokenKind.spelling] using hSlice, FloatText.exists_size hText, fun size hSize => ?_⟩
    obtain ⟨x, hRead, hFinite⟩ := hSize.reads
    refine ⟨fun hSmall => ?_, fun hLarge => ?_⟩
    · exact ⟨x, hRead, hFinite.mpr hSmall, parse_readable_float h hRead (hFinite.mpr hSmall)⟩
    · refine parse_unreadable_float h ?_
      rintro ⟨y, hOther, hOtherFinite⟩
      rw [hRead] at hOther
      cases hOther
      exact absurd (hFinite.mp hOtherFinite) (not_lt.mpr hLarge)
  · cases rest <;> exact ⟨rfl, rfl⟩

/-- A negative zero, the first integer beyond the range, and a float of either kind. -/
theorem parse_number_limits :
    let upTo (n : Nat) : Span := ⟨.origin, ⟨0, n, some n, n⟩, none⟩
    parse none "-0" .intValue = .ok (.intValue ⟨0, upTo 2⟩) ∧
    parse none "9223372036854775808" .value = .error (.integerOverflow "9223372036854775808" (upTo 19)) ∧
    (∃ x, Binary64.ofText? ['1', '.', '5'] = some x ∧ parse none "1.5" .floatValue = .ok (.floatValue ⟨x, upTo 3⟩)) ∧
    parse none "1e310" .floatValue = .error (.notFinite "1e310" (upTo 5)) := by
  intro upTo
  let last (n : Nat) : Token := ⟨.endOfInput, ⟨(upTo n).stop, (upTo n).stop, none⟩⟩
  obtain ⟨-, hZero, -⟩ := (parse_number none "-0" "-0" (upTo 2) (last 2)).1 (by decide +kernel)
  obtain ⟨-, -, hBeyond⟩ := (parse_number none "9223372036854775808" "9223372036854775808" (upTo 19) (last 19)).1
    (by decide +kernel)
  have hSmall : DenotesSize "1.5".toList _ :=
    @DenotesSize.mk false ['1'] ['.', '5'] ['5'] [] 0 (.digits rfl (by decide) (by simp [AllDigits]))
      (.digits (by simp) (by simp [AllDigits])) .none
  have hLarge : DenotesSize "1e310".toList _ :=
    @DenotesSize.mk false ['1'] [] [] ['e', '3', '1', '0'] _ (.digits rfl (by decide) (by simp [AllDigits])) .none
      (@OptionalExponent.plus 'e' [] ['3', '1', '0'] (.inl rfl) (.inl rfl) (by simp) (by simp [AllDigits]))
  have hReads : ∀ {text size b}, DenotesSize text size → (Binary64.ofText? text).map Binary64.isFinite = some b →
      (b = true ↔ size < 2 ^ 1024 - 2 ^ 970) := by
    intro text size b hSize hMap
    obtain ⟨x, hRead, hFinite⟩ := hSize.reads
    rw [hRead] at hMap
    cases hMap
    exact hFinite
  have hBelow := (@hReads _ _ true hSmall (by decide +kernel)).mp rfl
  have hAbove := not_lt.mp fun hBelow => nomatch (@hReads _ _ false hLarge (by decide +kernel)).mpr hBelow
  obtain ⟨-, -, hFinite⟩ := (parse_number none "1.5" "1.5" (upTo 3) (last 3)).2.1 (by decide +kernel)
  obtain ⟨-, -, hInfinite⟩ := (parse_number none "1e310" "1e310" (upTo 5) (last 5)).2.1 (by decide +kernel)
  obtain ⟨x, hRead, -, hParse⟩ := (hFinite _ hSmall).1 hBelow
  exact ⟨(hZero (by decide +kernel)).1, (hBeyond (by decide +kernel)).2, ⟨x, hRead, hParse⟩,
    (hInfinite _ hLarge).2 hAbove⟩

end GraphQLSyntax
