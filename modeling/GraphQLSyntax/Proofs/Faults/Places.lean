import GraphQLSyntax.Proofs.Faults.Accounts
import GraphQLSyntax.Proofs.Lexing.Progress

/-!
# The places of errors

An error spans a stretch of the text: a token, some tokens from the opening one to the closing one, or nothing at all
behind a token or at the end. Its notes point at tokens and at places where tokens start.
-/

set_option autoImplicit false

namespace GraphQLSyntax

/-- A stretch of the text, which may be empty. It starts with no line terminator and cuts no pair there. -/
def Span.Marks (source : List Char) (s : Span) : Prop :=
  ∃ before text after, source = before ++ (text ++ after) ∧ ¬ CutsPair before (text ++ after) ∧
    s.start = positionAfter before ∧ s.stop = positionAfter (before ++ text) ∧
    ∀ c ∈ text.head?, isLineTerminator c = false

/-! ## Spans of a text -/

section

variable {source : List Char} {s : Span} {t : Token}

theorem byteLength_eq_zero {cs : List Char} (h : byteLength cs = 0) : cs = [] := by
  cases cs with
  | nil => rfl
  | cons c cs =>
    have hSize := c.utf8Size_pos
    rw [byteLength] at h
    omega

theorem Span.marks_of_isIn (h : s.IsIn source) (hLe : s.start.offset ≤ s.stop.offset)
    (hFirst : s.start.offset < s.stop.offset → ∃ before c after, source = before ++ c :: after ∧
      isLineTerminator c = false ∧ s.start = positionAfter before) : s.Marks source := by
  obtain ⟨⟨before, rest, hSource, hCut, hStart⟩, before', after, hSource', -, hStop⟩ := h
  rw [hStart, hStop] at hLe hFirst
  change byteLength before ≤ byteLength before' at hLe
  obtain ⟨text, hText, hRest⟩ : ∃ text, before' = before ++ text ∧ rest = text ++ after := by
    obtain hForward | ⟨text, hBack, hRest⟩ := List.append_eq_append_iff.mp (hSource.symm.trans hSource')
    · exact hForward
    · -- The stop stands no earlier than the start, so there is nothing between them.
      have hNone : text = [] := by
        apply byteLength_eq_zero
        rw [hBack, byteLength_append] at hLe
        omega
      rw [hNone] at hBack hRest
      exact ⟨[], by rw [hBack, List.append_nil, List.append_nil], hRest.symm⟩
  rw [hRest] at hSource hCut
  rw [hText] at hFirst hStop
  refine ⟨before, text, after, hSource, hCut, hStart, hStop, ?_⟩
  intro c hc
  obtain ⟨tail, hTail⟩ := List.head?_eq_some_iff.mp hc
  have hLonger : (positionAfter before).offset < (positionAfter (before ++ text)).offset := by
    have hSize := c.utf8Size_pos
    simp only [positionAfter, byteLength_append, hTail, byteLength]
    omega
  obtain ⟨front, d, back, hSplit, hd, hFront⟩ := hFirst hLonger
  obtain ⟨-, hSame⟩ := append_inj_of_byteLength (hSource.symm.trans hSplit) (congrArg Position.offset hFront)
  rw [hTail] at hSame
  rwa [(List.cons.inj hSame).1]

theorem Span.marks_emptyAt {p : Position} (h : p.IsIn source) : (Span.emptyAt p).Marks source :=
  Span.marks_of_isIn ⟨h, h⟩ (Nat.le_refl _) fun hLess => absurd hLess (Nat.lt_irrefl _)

/-- A span that starts with a token and ends no earlier than it. -/
theorem Token.StandsIn.marks (ht : t.StandsIn source) (hStart : s.start = t.span.start) (h : s.IsIn source)
    (hStop : t.span.stop.offset ≤ s.stop.offset) : s.Marks source := by
  have hNonempty := ht.nonempty
  obtain ⟨before, c, after, hSource, hc, hBefore, -⟩ := ht
  apply Span.marks_of_isIn h
  · rw [hStart]
    omega
  · exact fun _ => ⟨before, c, after, hSource, hc, hStart.trans hBefore⟩

theorem Position.isIn_origin : Position.origin.IsIn source := by
  refine ⟨[], source, rfl, ?_, rfl⟩
  rintro ⟨hLast, -⟩
  cases hLast

end

/-! ## Tokens of a text -/

section

variable {file : Option Path} {source : String} {symbol : GrammarSymbol} {ts us : List Token} {t : Token}
  {e : ParseError}

theorem placesIn_of_lex (ht : t ∈ lex file source) : t.PlacesIn source.toList :=
  lexFrom_placesIn .start source.toList [] rfl t ht

theorem standsIn_of_lex (ht : t ∈ lex file source) (hEnd : t.kind ≠ .endOfInput) : t.StandsIn source.toList :=
  lexFrom_standsIn .start source.toList [] rfl t ht hEnd

theorem marks_of_lex (ht : t ∈ lex file source) : t.span.Marks source.toList := by
  have hIn := (placesIn_of_lex ht).1
  obtain ⟨init, hLex, hInit⟩ := lex_endAt file source
  rw [hLex] at ht
  rcases List.mem_append.mp ht with hToken | hEnd
  · have hMem : t ∈ lex file source := by
      rw [hLex]
      exact ht
    exact (standsIn_of_lex hMem (hInit t hToken)).marks rfl hIn (Nat.le_refl _)
  · rw [List.mem_singleton.mp hEnd] at hIn ⊢
    exact Span.marks_of_isIn hIn (Nat.le_refl _) fun hLess => absurd hLess (Nat.lt_irrefl _)

theorem TokenKind.Readable.ne_endOfInput {k : TokenKind} (h : k.Readable) : k ≠ .endOfInput := by
  rintro rfl
  exact h

/-- No token ends behind the last one. -/
theorem stop_le_getLast (hTokens : lex file source = ts ++ us) (hReadable : ∀ t ∈ ts, t.kind.Readable) {last : Token}
    (hLast : ts.getLast? = some last) (ht : t ∈ ts) : t.span.stop.offset ≤ last.span.stop.offset := by
  obtain ⟨init, rfl⟩ := List.getLast?_eq_some_iff.mp hLast
  have hMem : last ∈ lex file source := by
    rw [hTokens]
    simp
  have hNonempty := (standsIn_of_lex hMem (hReadable last (by simp)).ne_endOfInput).nonempty
  have hSorted := (@lexFrom_sorted file .start source.toList).1
  rw [← lex_eq_lexFrom, hTokens] at hSorted
  rcases List.mem_append.mp ht with hBefore | hSame
  · have hNext := (List.pairwise_append.mp (List.pairwise_append.mp hSorted).1).2.2 t hBefore last (by simp)
    omega
  · rw [List.mem_singleton.mp hSame]

theorem isIn_endAfter (hTokens : lex file source = ts ++ us) :
    (Parser.endAfter (.ofTokens (lex file source)) ts).IsIn source.toList := by
  rw [Parser.endAfter]
  cases hLast : ts.getLast? with
  | none => exact Position.isIn_origin
  | some last =>
    have hMem : last ∈ lex file source := by
      rw [hTokens]
      exact List.mem_append_left us (List.mem_of_getLast? hLast)
    exact (placesIn_of_lex hMem).1.2

theorem marks_frontSpan (hTokens : lex file source = ts ++ us) :
    (Parser.frontSpan (.ofTokens (lex file source)) ts us).Marks source.toList := by
  cases us with
  | nil => exact Span.marks_emptyAt (isIn_endAfter hTokens)
  | cons u us =>
    apply marks_of_lex
    rw [hTokens]
    exact List.mem_append_right ts List.mem_cons_self

/-- The opener that the note of an unclosed delimiter points at is one of the tokens. -/
theorem opener_of_unclosed {tokens : List Token} {delimiter : String} (h : parseTokens tokens symbol = .error e)
    (hKind : e.kind = .unclosedDelimiter delimiter) :
    ∃ (o : Opener) (span : Span), o.token ∈ tokens ∧ e = o.unclosedError span := by
  obtain ⟨ts, us, hFails⟩ := parseTokens_failure h
  have hRest : tokens = ts ++ us := hFails.rest
  cases hFails.verdict with
  | unclosed _ hOpen hError =>
    cases unclosed_of_openAfter hOpen with
    | some _ _ =>
      refine ⟨_, _, ?_, hError⟩
      rw [hRest]
      simp
  | unexpected _ _ hOther | ended _ hOther =>
    simp [hKind] at hOther
  | refused _ _ hRefusal =>
    rw [hKind] at hRefusal
    cases hRefusal
  | unreadable _ _ _ hUnread =>
    have hMisplaced := hUnread.not_misplacement
    rw [hKind] at hMisplaced
    cases hMisplaced
  | reservedOn _ _ _ _ hOther | deep hOther =>
    rw [hKind] at hOther
    cases hOther

/-- Errors and their notes stand in the text. -/
theorem places_of_parse (h : parse file source symbol = .error e) :
    e.span.Marks source.toList ∧ ∀ note ∈ e.notes, ∀ s, note.span = some s → s.start.IsIn source.toList := by
  obtain ⟨ts, us, hRest, hReadable, hCause⟩ := caused_of_parseTokens h
  have hTokens : lex file source = ts ++ us := hRest
  have hMem : ∀ t ∈ ts ++ us, t ∈ lex file source := fun t ht => by rwa [hTokens]
  have hPlaceless : e.Placeless → ∀ note ∈ e.notes, ∀ s, note.span = some s → s.start.IsIn source.toList := by
    intro hNone note hNote s hSpan
    rw [hNone note hNote] at hSpan
    cases hSpan
  cases hCause with
  | @fault t us message notes hKind =>
    have ht : t ∈ lex file source := hMem t (by simp)
    refine ⟨marks_of_lex ht, ?_⟩
    intro note hNote s hSpan
    have hNotes : note ∈ t.kind.notes := by rwa [hKind]
    exact ((placesIn_of_lex ht).2 note hNotes s hSpan).1
  | @next t us _ _ _ _ hSpan hNone =>
    rw [hSpan]
    exact ⟨marks_of_lex (hMem t (by simp)), hPlaceless hNone⟩
  | @consumed t _ _ ht _ hStart hStop hNone =>
    refine ⟨?_, hPlaceless hNone⟩
    obtain ⟨last, hLast⟩ : ∃ last, ts.getLast? = some last :=
      ⟨_, List.getLast?_eq_some_getLast (List.ne_nil_of_mem ht)⟩
    have hLastStop : e.span.stop = last.span.stop := by
      rw [hStop, Parser.endAfter, hLast]
      rfl
    have htMem := hMem t (List.mem_append_left us ht)
    have hlMem := hMem last (List.mem_append_left us (List.mem_of_getLast? hLast))
    apply (standsIn_of_lex htMem (hReadable t ht).ne_endOfInput).marks hStart
    · rw [Span.IsIn, hStart, hLastStop]
      exact ⟨(placesIn_of_lex htMem).1.1, (placesIn_of_lex hlMem).1.2⟩
    · rw [hLastStop]
      exact stop_le_getLast hTokens hReadable hLast ht
  | ended _ _ hSpan hNone =>
    rw [hSpan]
    exact ⟨marks_frontSpan hTokens, hPlaceless hNone⟩
  | @unclosed _ o hFront =>
    refine ⟨Span.marks_emptyAt (isIn_endAfter hTokens), ?_⟩
    obtain ⟨o', span, hOpener, hError⟩ := opener_of_unclosed h rfl
    rw [hError]
    intro note hNote s hSpan
    obtain rfl := List.mem_singleton.mp hNote
    cases hSpan
    exact (placesIn_of_lex hOpener).1.1
  | deep => exact ⟨marks_frontSpan hTokens, hPlaceless (placeless_of_nil rfl)⟩

end

end GraphQLSyntax
