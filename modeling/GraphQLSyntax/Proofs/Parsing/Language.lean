import GraphQLSyntax.Parse
import GraphQLSyntax.Proofs.Lexing.Lossless
import GraphQLSyntax.Proofs.Parsing.Document
import GraphQLSyntax.Proofs.Parsing.Literal

/-!
# The language of the parser

The parser takes just the token lists that can be derived from a symbol, as long as every literal stands
for something and the nesting stays within its limit, and it makes of them the only node they derive.
-/

set_option autoImplicit false

namespace GraphQLSyntax

namespace Parser

/-! ## Symbols -/

theorem implements_construct (symbol : GrammarSymbol) :
    ImplementsWhole (construct symbol) (Derives symbol) Construct.nesting := by
  cases symbol with
  | document => exact implements_document.map _ (fun _ _ => .rfl) fun _ => rfl
  | definition => exact implements_definition.whole.map _ (fun _ _ => .rfl) fun _ => rfl
  | operationDefinition => exact implements_operationDefinition.whole.map _ (fun _ _ => .rfl) fun _ => rfl
  | operationType =>
    change ImplementsWhole (do return (fun r => Construct.operationType r.1) (← operationType)) _ _
    refine implements_operationType.whole.map _ ?_ fun _ => rfl
    intro ts c
    constructor
    · rintro ⟨k, hPhrase, rfl⟩
      exact ⟨(k, spanOver ts), ⟨hPhrase, rfl⟩, rfl⟩
    · rintro ⟨r, ⟨hPhrase, -⟩, rfl⟩
      exact ⟨r.1, hPhrase, rfl⟩
  | variableDefinitions => exact implements_variableDefinitions.whole.map _ (fun _ _ => .rfl) fun _ => rfl
  | variableDefinition => exact implements_variableDefinition.whole.map _ (fun _ _ => .rfl) fun _ => rfl
  | selectionSet => exact implements_selectionSet.whole.map _ (fun _ _ => .rfl) fun _ => rfl
  | selection =>
    exact (implements_selectionOf implements_selectionSet).whole.map _ (fun _ _ => .rfl) fun _ => rfl
  | field => exact (implements_fieldOf implements_selectionSet).whole.map _ (fun _ _ => .rfl) fun _ => rfl
  | responseAlias => exact implements_responseAlias.whole.map _ (fun _ _ => .rfl) fun _ => rfl
  | arguments => exact (implements_arguments rfl rfl).whole.map _ (fun _ _ => .rfl) fun _ => rfl
  | argument => exact implements_argument.whole.map _ (fun _ _ => .rfl) fun _ => rfl
  | directives => exact implements_directives.whole.map _ (fun _ _ => .rfl) fun _ => rfl
  | directive => exact implements_directive.whole.map _ (fun _ _ => .rfl) fun _ => rfl
  | fragmentSpread => exact implements_fragmentSpread.whole.map _ (fun _ _ => .rfl) fun _ => rfl
  | fragmentName => exact implements_fragmentName.whole.map _ (fun _ _ => .rfl) fun _ => rfl
  | inlineFragment =>
    exact (implements_inlineFragmentOf implements_selectionSet).whole.map _ (fun _ _ => .rfl) fun _ => rfl
  | fragmentDefinition => exact implements_fragmentDefinition.whole.map _ (fun _ _ => .rfl) fun _ => rfl
  | typeCondition => exact implements_typeCondition.whole.map _ (fun _ _ => .rfl) fun _ => rfl
  | type => exact implements_typeReference.whole.map _ (fun _ _ => .rfl) fun _ => rfl
  | namedType => exact implements_namedType.whole.map _ (fun _ _ => .rfl) fun _ => rfl
  | listType => exact implements_listType.whole.map _ (fun _ _ => .rfl) fun _ => rfl
  | nonNullType => exact implements_nonNullType.whole.map _ (fun _ _ => .rfl) fun _ => rfl
  | value => exact (implements_value .argument).whole.map _ (fun _ _ => .rfl) fun _ => rfl
  | constValue => exact (implements_value .constant).whole.map _ (fun _ _ => .rfl) fun _ => rfl
  | booleanOrNullOrEnum => exact implements_booleanNullOrEnum.whole.map _ (fun _ _ => .rfl) fun _ => rfl
  | reference => exact implements_reference.whole.map _ (fun _ _ => .rfl) fun _ => rfl
  | listValue => exact implements_listValue.whole.map _ (fun _ _ => .rfl) fun _ => rfl
  | objectValue => exact implements_objectValue.whole.map _ (fun _ _ => .rfl) fun _ => rfl
  | intValue => exact implements_intValue.whole.map _ (fun _ _ => .rfl) fun _ => rfl
  | floatValue => exact implements_floatValue.whole.map _ (fun _ _ => .rfl) fun _ => rfl
  | stringValue => exact implements_stringValue.whole.map _ (fun _ _ => .rfl) fun _ => rfl
  | name => exact implements_name.whole.map _ (fun _ _ => .rfl) fun _ => rfl

end Parser

/-! ## Token lists -/

section

variable {symbol : GrammarSymbol} {ts : List Token} {last : Token} {n : Construct}

/-- The end of the input is the first of its kind, so what is consumed before it is all of the rest. -/
theorem eq_of_append_end {us rest : List Token} (hLast : last.kind = .endOfInput)
    (hEnd : ∀ t ∈ ts, t.kind ≠ .endOfInput) (hRest : ts ++ [last] = us ++ rest)
    (hReadable : ∀ t ∈ us, t.kind.Readable) (hAtEnd : Parser.isEnd (nextKind rest) = true) : us = ts := by
  have hNotLast : last ∉ us := by
    intro hMem
    have hKind := hReadable last hMem
    rw [hLast] at hKind
    exact hKind
  rcases List.append_eq_append_iff.mp hRest with ⟨vs, rfl, hLasts⟩ | ⟨vs, rfl, hLasts⟩
  · cases vs with
    | nil => exact List.append_nil ts
    | cons v vs =>
      obtain ⟨rfl, -⟩ := List.cons_eq_cons.mp hLasts
      exact absurd (by simp) hNotLast
  · cases vs with
    | nil => exact (List.append_nil us).symm
    | cons v vs =>
      subst hLasts
      exact absurd (by simpa [Parser.isEnd] using hAtEnd) (hEnd v (by simp))

/-- What is parsed is derived from the tokens up to where the input ends. -/
theorem parseTokens_eq_ok {tokens : List Token} (h : parseTokens tokens symbol = .ok n) :
    ∃ us rest, tokens = us ++ rest ∧ Parser.isEnd (nextKind rest) = true ∧ Derives symbol us n ∧
      (∀ t ∈ us, t.kind.Readable) ∧ n.nesting ≤ maxDepth := by
  have hRun : ∃ s', Parser.whole (Parser.construct symbol) (.ofTokens tokens) = .ok n s' := by
    unfold parseTokens Parser.result EStateM.run at h
    split at h
    · rename_i a s' hRun
      cases h
      exact ⟨s', hRun⟩
    · cases h
  obtain ⟨s', hRun⟩ := hRun
  rw [Parser.whole] at hRun
  obtain ⟨n', s₁, hConstruct, hRun⟩ := Parser.bind_eq_ok hRun
  obtain ⟨us, hMoves, hDerives, hNest⟩ := (Parser.implements_construct symbol).sound hConstruct
  obtain ⟨u, s₂, hExpect, hRun⟩ := Parser.bind_eq_ok hRun
  cases hRun
  have hAtEnd : Parser.isEnd (nextKind s₁.rest) = true := by
    rw [Parser.expectEnd] at hExpect
    obtain ⟨s₃, -, hExpect⟩ := (Parser.isAtEnd_peeks s₁).bind_eq_ok hExpect
    cases hIs : Parser.isEnd (nextKind s₁.rest) with
    | true => rfl
    | false =>
      rw [hIs] at hExpect
      exact absurd hExpect (Parser.unexpected_ne_ok _ _ _ _)
  exact ⟨us, s₁.rest, hMoves.rest, hAtEnd, hDerives, hMoves.readable, hNest⟩

theorem parseTokens_sound (hLast : last.kind = .endOfInput) (hEnd : ∀ t ∈ ts, t.kind ≠ .endOfInput)
    (h : parseTokens (ts ++ [last]) symbol = .ok n) :
    Derives symbol ts n ∧ (∀ t ∈ ts, t.kind.Readable) ∧ n.nesting ≤ maxDepth := by
  obtain ⟨us, rest, hRest, hAtEnd, hDerives, hReadable, hNest⟩ := parseTokens_eq_ok h
  have hTokens : us = ts := eq_of_append_end hLast hEnd hRest hReadable hAtEnd
  subst hTokens
  exact ⟨hDerives, hReadable, hNest⟩

/-- Nesting is the only reason not to take what can be derived. -/
theorem parseTokens_complete (hLast : last.kind = .endOfInput) (hReadable : ∀ t ∈ ts, t.kind.Readable)
    (h : Derives symbol ts n) :
    parseTokens (ts ++ [last]) symbol = .ok n ∨
      (maxDepth < n.nesting ∧ ∃ span, parseTokens (ts ++ [last]) symbol = .error (.tooDeep span)) := by
  have hEnd : Parser.isEnd (nextKind [last]) = true := by
    rw [nextKind_cons, hLast]
    rfl
  have hWhole : Parser.Accepts (Parser.whole (Parser.construct symbol)) (.ofTokens (ts ++ [last])) ts
      [last] n n.nesting := by
    rw [Parser.whole]
    refine ((Parser.implements_construct symbol).complete h hEnd).bind_last (Nat.le_refl _) ?_
    intro s₁ _
    refine Parser.Accepts.bind_nil (a := ()) (m := 0) ?_ (Nat.zero_le _)
      fun s₂ _ => .pure _ _ _ _
    rw [Parser.expectEnd]
    refine Parser.Accepts.peek (a := fun ts => Parser.isEnd (nextKind ts)) (Parser.isAtEnd_peeks s₁) ?_
    intro s₂ _
    rw [List.nil_append, List.nil_append, hEnd]
    exact .pure _ _ _ _
  unfold parseTokens Parser.result EStateM.run
  obtain ⟨s', hRun, -⟩ | ⟨hDeep, span, s', hRun⟩ := hWhole rfl hReadable
  · rw [hRun]
    exact .inl rfl
  · rw [hRun]
    exact .inr ⟨hDeep, span, rfl⟩

end

/-- What a text is parsed into is derived from all of its tokens, and none of them is a fault. -/
theorem parse_eq_ok {file : Option Path} {source : String} {symbol : GrammarSymbol} {n : Construct}
    (h : parse file source symbol = .ok n) :
    ∃ ts last, lex file source = ts ++ [last] ∧ last.kind = .endOfInput ∧
      (∀ t ∈ ts, t.kind.WellFormed ∧ t.kind.Readable) ∧ Derives symbol ts n ∧ n.nesting ≤ maxDepth := by
  obtain ⟨ts, last, hLex, hLast, hTokens⟩ := @lexFrom_snoc file .start source.toList
  rw [parse, lex_eq_lexFrom, hLex] at h
  obtain ⟨hDerives, hReadable, hNesting⟩ := parseTokens_sound hLast (fun t ht => (hTokens t ht).1) h
  refine ⟨ts, last, hLex, hLast, ?_, hDerives, hNesting⟩
  intro t ht
  have hKind := hReadable t ht
  refine ⟨(hTokens t ht).2 ?_, hKind⟩
  cases hToken : t.kind with
  | error =>
    rw [hToken] at hKind
    exact hKind.elim
  | _ => rfl

section

variable {file : Option Path} {source : String} {symbol : GrammarSymbol} {n : Construct} {ts : List Token} {last : Token}

/-- A text is parsed into whatever its tokens derive, or there is no room for it. -/
theorem parse_complete (hLex : lex file source = ts ++ [last]) (hLast : last.kind = .endOfInput)
    (hReadable : ∀ t ∈ ts, t.kind.Readable) (hDerives : Derives symbol ts n) :
    parse file source symbol = .ok n ∨
      (maxDepth < n.nesting ∧ ∃ span, parse file source symbol = .error (.tooDeep span)) := by
  rw [parse, hLex]
  exact parseTokens_complete hLast hReadable hDerives

theorem parse_of_derives (hLex : lex file source = ts ++ [last]) (hLast : last.kind = .endOfInput)
    (hReadable : ∀ t ∈ ts, t.kind.Readable) (hDerives : Derives symbol ts n) (hNesting : n.nesting ≤ maxDepth) :
    parse file source symbol = .ok n := by
  obtain hOk | ⟨hDeep, -⟩ := parse_complete hLex hLast hReadable hDerives
  · exact hOk
  · omega

variable {symbol' : GrammarSymbol} {n' : Construct}

/-- A text is parsed into what the tokens of something else derive that it is parsed into. -/
theorem parse_mono (h : parse file source symbol = .ok n) (hDerives : ∀ ts, Derives symbol ts n → Derives symbol' ts n')
    (hNesting : n'.nesting ≤ n.nesting) : parse file source symbol' = .ok n' := by
  obtain ⟨ts, last, hLex, hLast, hTokens, hPhrase, hRoom⟩ := parse_eq_ok h
  exact parse_of_derives hLex hLast (fun t ht => (hTokens t ht).2) (hDerives ts hPhrase) (Nat.le_trans hNesting hRoom)

theorem parse_iff_of_derives_iff {P : Prop} (hDerives : ∀ ts, Derives symbol ts n ↔ Derives symbol' ts n' ∧ P)
    (hNesting : n.nesting = n'.nesting) :
    parse file source symbol = .ok n ↔ parse file source symbol' = .ok n' ∧ P := by
  constructor
  · intro h
    obtain ⟨ts, last, -, -, -, hPhrase, -⟩ := parse_eq_ok h
    exact ⟨parse_mono h (fun ts hPhrase => ((hDerives ts).mp hPhrase).1) (Nat.le_of_eq hNesting.symm),
      ((hDerives ts).mp hPhrase).2⟩
  · rintro ⟨h, hP⟩
    exact parse_mono h (fun ts hPhrase => (hDerives ts).mpr ⟨hPhrase, hP⟩) (Nat.le_of_eq hNesting)

end

theorem isError_of_parse {file : Option Path} {source : String} {symbol : GrammarSymbol} {n : Construct}
    (h : parse file source symbol = .ok n) : ∀ t ∈ lex file source, t.kind.isError = false := by
  obtain ⟨ts, last, hLex, hLast, hTokens, -⟩ := parse_eq_ok h
  intro t ht
  rw [hLex] at ht
  rcases List.mem_append.mp ht with ht | ht
  · obtain ⟨hWell, -⟩ := hTokens t ht
    cases hKind : t.kind with
    | error =>
      rw [hKind] at hWell
      exact hWell.elim
    | _ => rfl
  · rw [List.mem_singleton.mp ht, hLast]
    rfl

/-- A list of tokens is parsed if and only if it can be derived, its literals fit, and it is not nested too
deep. What is made of it is then the only construct it derives. -/
theorem parseTokens_iff_derives (symbol : GrammarSymbol) (ts : List Token) (last : Token)
    (hWell : ∀ t ∈ ts, t.kind.WellFormed) (hLast : last.kind = .endOfInput) :
    (∀ n, parseTokens (ts ++ [last]) symbol = .ok n ↔
      Derives symbol ts n ∧ (∀ t ∈ ts, t.kind.Fits) ∧ n.nesting ≤ maxDepth) ∧
    ∀ n m, parseTokens (ts ++ [last]) symbol = .ok n → Derives symbol ts m → m = n := by
  have hEnd : ∀ t ∈ ts, t.kind ≠ .endOfInput := by
    intro t ht hKind
    have hToken := hWell t ht
    rw [hKind] at hToken
    exact hToken
  have hFits : (∀ t ∈ ts, t.kind.Readable) ↔ ∀ t ∈ ts, t.kind.Fits :=
    forall₂_congr fun t ht => TokenKind.readable_iff_fits (hWell t ht)
  refine ⟨fun n => ⟨fun h => ?_, ?_⟩, fun n m h hDerives => ?_⟩
  · obtain ⟨hDerives, hReadable, hNest⟩ := parseTokens_sound hLast hEnd h
    exact ⟨hDerives, hFits.mp hReadable, hNest⟩
  · rintro ⟨hDerives, hAll, hNest⟩
    obtain hOk | ⟨hDeep, -⟩ := parseTokens_complete hLast (hFits.mpr hAll) hDerives
    · exact hOk
    · omega
  · obtain ⟨-, hReadable, -⟩ := parseTokens_sound hLast hEnd h
    obtain hOk | ⟨-, e, hError⟩ := parseTokens_complete hLast hReadable hDerives
    · rw [h] at hOk
      cases hOk
      rfl
    · rw [h] at hError
      cases hError

/-- A type that is non-null inside a list and outside. -/
theorem parseTokens_iff_derives_nonNull :
    let token (kind : TokenKind) : Token := ⟨kind, .emptyAt .origin⟩
    let ts := [token (.punctuator .bracketOpen), token (.name "a"), token (.punctuator .bang),
      token (.punctuator .bracketClose), token (.punctuator .bang)]
    ∃ n, Derives .nonNullType ts n ∧ n.nesting = 2 ∧
      parseTokens (ts ++ [token .endOfInput]) .nonNullType = .ok n ∧
      ∀ m, Derives .nonNullType ts m → m = n := by
  intro token ts
  have hName : (TokenKind.name "a").WellFormed :=
    ⟨@NameText.mk 'a' [] rfl (fun _ hd => nomatch hd), by decide, by decide, by decide⟩
  have hWell : ∀ t ∈ ts, t.kind.WellFormed := by
    simpa [ts, token, TokenKind.WellFormed] using hName
  have hFits : ∀ t ∈ ts, t.kind.Fits := by
    simp [ts, token, TokenKind.Fits]
  have hNamed : NullablePhrase TypePhrase [token (.name "a")] _ :=
    .named (.mk (by simp [token]) (.mk rfl))
  have hInner : TypePhrase ([token (.name "a")] ++ [token (.punctuator .bang)]) _ :=
    .nonNull (.mk hNamed rfl)
  have hList : NullablePhrase TypePhrase (token (.punctuator .bracketOpen) ::
      ([token (.name "a"), token (.punctuator .bang)] ++ [token (.punctuator .bracketClose)])) _ :=
    .list (.mk rfl hInner rfl)
  have hPhrase : NonNullPhrase TypePhrase ts _ := NonNullPhrase.mk hList rfl
  obtain ⟨hIff, hUnique⟩ := parseTokens_iff_derives .nonNullType ts (token .endOfInput) hWell rfl
  have hDerives : Derives .nonNullType ts (.nonNullType _) := ⟨_, hPhrase, rfl⟩
  have hParse := (hIff _).mpr ⟨hDerives, hFits, by decide⟩
  exact ⟨_, hDerives, rfl, hParse, fun m => hUnique _ m hParse⟩

end GraphQLSyntax
