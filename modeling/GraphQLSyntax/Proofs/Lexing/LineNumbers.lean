import GraphQLSyntax.Proofs.Lexing.Lines
import GraphQLSyntax.Proofs.Lexing.Order
import GraphQLSyntax.Proofs.StringLiteral.BlockValue

/-!
# Line numbers

Lines are counted three times: by the lexer as it passes over a text, when the text is split, and when a line with a
given number is looked up. The three agree, so that every line the lexer names is there to be shown.
-/

set_option autoImplicit false

namespace GraphQLSyntax

variable {file : Option Path}

/-- The ends of a token and of the spans in its notes. -/
def Token.positions (t : Token) : List Position :=
  (t.span :: t.kind.notes.filterMap Note.span).flatMap fun s => [s.start, s.stop]

/-! ## Looking up and splitting -/

/-- Looking a line up is splitting the text and counting its lines. -/
theorem line?_eq_getElem? (text : List Char) (n : Nat) : line? text n = (splitLines text)[n]? := by
  fun_induction splitLines text generalizing n with
  | case1 => cases n <;> rfl
  | case2 cs ih =>
    cases n with
    | zero => rfl
    | succ n => exact ih n
  | case3 c cs hPair hTerminator ih =>
    have hAlone : ¬ (c = '\r' ∧ cs.head? = some '\n') := by
      rintro ⟨rfl, hFeed⟩
      obtain ⟨rest, rfl⟩ := List.head?_eq_some_iff.mp hFeed
      exact hPair rest rfl rfl
    cases n with
    | zero => simp [line?, hTerminator]
    | succ n => rw [line?_cons_succ hAlone, hTerminator, if_pos rfl, ih n, List.getElem?_cons_succ]
  | case4 c cs _ _ hNone ih => exact absurd hNone (splitLines_ne_nil cs)
  | case5 c cs _ hTerminator line lines hLines ih =>
    -- The character stands at the front of the first line, and the lines behind it stay where they are.
    rw [hLines] at ih
    cases n with
    | zero => simpa [line?, hTerminator] using ih 0
    | succ n =>
      have hAlone : ¬ (c = '\r' ∧ cs.head? = some '\n') := by
        rintro ⟨rfl, -⟩
        exact hTerminator rfl
      rw [line?_cons_succ hAlone, if_neg hTerminator, ih (n + 1), List.getElem?_cons_succ, List.getElem?_cons_succ]

/-! ## Counting -/

/-- There is one line more than there are line terminators. -/
theorem length_splitLines (text : List Char) : (splitLines text).length = terminatorCount text + 1 := by
  fun_induction splitLines text with
  | case1 => rfl
  | case2 cs ih => rw [terminatorCount, List.length_cons, ih]
  | case3 c cs hPair hTerminator ih =>
    rw [terminatorCount, hTerminator, List.length_cons, ih]
    · rfl
    · exact hPair
  | case4 c cs _ _ hNone ih => exact absurd hNone (splitLines_ne_nil cs)
  | case5 c cs hPair hTerminator line lines hLines ih =>
    rw [terminatorCount, Bool.eq_false_iff.mpr hTerminator, List.length_cons, ← List.length_cons, ← hLines, ih]
    · rfl
    · exact hPair

/-- A position of a text is on one of its lines. -/
theorem Position.IsIn.line_lt {source : List Char} {p : Position} (h : p.IsIn source) :
    p.line < (splitLines source).length := by
  obtain ⟨before, after, rfl, hCut, rfl⟩ := h
  rw [length_splitLines, terminatorCount_append hCut]
  exact Nat.lt_succ_of_le (Nat.le_add_right _ _)

theorem Token.PlacesIn.positions {source : List Char} {t : Token} (h : t.PlacesIn source) :
    ∀ p ∈ t.positions, p.IsIn source := by
  intro p hp
  obtain ⟨s, hs, hp⟩ := List.mem_flatMap.mp hp
  have hSpan : s.IsIn source := by
    rcases List.mem_cons.mp hs with rfl | hs
    · exact h.1
    · obtain ⟨note, hNote, hs⟩ := List.mem_filterMap.mp hs
      exact h.2 note hNote s hs
  rcases List.mem_pair.mp hp with rfl | rfl
  · exact hSpan.1
  · exact hSpan.2

/-! ## The lines that the lexer names -/

/-- Looking lines up and splitting agree on which lines there are and what is on them. The end of the input is on the
last of them, and every position that the lexer reports is on a line that can be looked up. -/
theorem lex_lines (file : Option Path) (source : String) :
    (∀ n, line? source.toList n = (splitLines source.toList)[n]?) ∧
      (∃ ts last, lex file source = ts ++ [last] ∧ last.kind = .endOfInput ∧ (∀ t ∈ ts, t.kind ≠ .endOfInput) ∧
        last.span.start.line + 1 = (splitLines source.toList).length ∧ last.span.stop = last.span.start) ∧
      ∀ t ∈ lex file source, ∀ p ∈ t.positions, (line? source.toList p.line).isSome = true := by
  refine ⟨line?_eq_getElem? _, ?_, ?_⟩
  · obtain ⟨ts, hLex, hInner⟩ := lex_endAt file source
    refine ⟨ts, _, hLex, rfl, hInner, ?_, rfl⟩
    rw [length_splitLines, Token.endAt, Mark.position_start, positionAfter]
  · intro t ht p hp
    have hPlaces : t.PlacesIn source.toList := lex_positions file source t ht
    rw [line?_eq_getElem?, List.getElem?_eq_getElem (hPlaces.positions p hp).line_lt]
    rfl

/-- The comment ends with a carriage return alone, and in the block string a line feed stands before one. -/
theorem lex_lines_block :
    ∃ t ∈ lex none "\r\n#\r\"\"\"\n\r\"\"\"\n", t.span.stop.line = 4 ∧
      line? "\r\n#\r\"\"\"\n\r\"\"\"\n".toList 4 = some "\"\"\"".toList ∧
      ∀ p ∈ t.positions, (line? "\r\n#\r\"\"\"\n\r\"\"\"\n".toList p.line).isSome = true := by
  have hBlock : ∃ t ∈ lex none "\r\n#\r\"\"\"\n\r\"\"\"\n", t.span.stop.line = 4 := by decide
  obtain ⟨t, ht, hLine⟩ := hBlock
  obtain ⟨hLookUp, -, hPositions⟩ := lex_lines none "\r\n#\r\"\"\"\n\r\"\"\"\n"
  refine ⟨t, ht, hLine, ?_, hPositions t ht⟩
  rw [hLookUp]
  rfl

end GraphQLSyntax
