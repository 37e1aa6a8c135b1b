import GraphQLSyntax.Proofs.Relocation.Insertion
import GraphQLSyntax.Proofs.Tree.Ranges
import GraphQLSyntax.Proofs.Tree.Readings

/-!
# The slices of nodes

The text under the span of a node holds the tokens of the node and nothing else, so it is parsed into the same node when
it stands alone.
-/

set_option autoImplicit false

namespace GraphQLSyntax

variable {file : Option Path} {source : String}

/-- The text under the span of a construct is parsed into the same construct, but for its spans. -/
def Construct.ReadsBack (source : String) (c : Construct) : Prop :=
  ∃ slice, c.slice? source = some slice ∧
    ∀ file, ∃ d, parse file slice c.symbol = .ok d ∧ d.bare = c.bare

/-! ## The text of some tokens -/

/-- Tokens of a text stand in a slice of it, from the start of the first to the end of the last. Ignored text is all
that comes before the first token of the text. -/
theorem lex_slice {ts us vs : List Token} (hLex : lex file source = ts ++ (us ++ vs)) (hSome : us ≠ [])
    (hMore : vs ≠ []) (hError : ∀ t ∈ ts ++ us, t.kind.isError = false) :
    ∃ before text after m, source.toList = before ++ (text ++ after) ∧ Cut after text (us.map Token.kind) ∧
      lexFrom file m after = vs ∧ (ts = [] → IgnoredRun true before) ∧
      ∀ s : Span, s.Covers us → s.start.offset = byteLength before ∧
        s.stop.offset = byteLength before + byteLength text := by
  rw [lex_eq_lexFrom] at hLex
  obtain ⟨front, rest, hSource, hRest, hFront⟩ : ∃ front rest, source.toList = front ++ rest ∧
      lexFrom file (Mark.start.advance front) rest = us ++ vs ∧ (ts = [] → front = []) := by
    cases ts with
    | nil => exact ⟨[], source.toList, rfl, hLex, fun _ => rfl⟩
    | cons t ts =>
      obtain ⟨front, rest, hSource, -, hRest, -⟩ := lexFrom_cut .start source.toList hLex (by simp [hMore])
        fun u hu => hError u (List.mem_append_left us hu)
      exact ⟨front, rest, hSource, hRest, fun hNil => absurd hNil (List.cons_ne_nil t ts)⟩
  obtain ⟨u, us, rfl⟩ := List.exists_cons_of_ne_nil hSome
  obtain ⟨gap, tail, rfl, hGap, -, -, hSpan, -⟩ :=
    lexFrom_cons _ rest hRest (by simp [hMore]) (hError u (by simp))
  rw [lexFrom_run hGap (.inl rfl), ← Mark.advance_append] at hRest
  rw [← Mark.advance_append] at hSpan
  obtain ⟨text, after, hText, hCut, hAfter, hLast⟩ := lexFrom_cut _ _ hRest hMore
    fun t ht => hError t (List.mem_append_right ts ht)
  have hOffset : ∀ before : List Char, (Mark.start.advance before).position.offset = byteLength before :=
    fun before => (Mark.start.advance_offset before).trans (Nat.zero_add _)
  refine ⟨front ++ gap, text, after, _, by rw [hSource, hText, List.append_assoc], hCut, hAfter, ?_, ?_⟩
  · intro hNil
    rwa [hFront hNil]
  · rintro s ⟨first, hFirst, last, hStop, rfl⟩
    cases hFirst
    rw [hStop, ← Mark.advance_append] at hLast
    constructor
    · rw [hSpan]
      exact hOffset (front ++ gap)
    · rw [← byteLength_append, ← hOffset, hLast]
      rfl

/-- A slice of a text that holds the tokens of a construct is parsed into it. -/
theorem parse_of_cut {after text : List Char} {us : List Token} {c : Construct}
    (hCut : Cut after text (us.map Token.kind)) (hReadable : ∀ u ∈ us, u.kind.Readable)
    (hDerives : Derives c.symbol us c) (hNesting : c.nesting ≤ maxDepth) (file : Option Path) :
    ∃ d, parse file (String.ofList text) c.symbol = .ok d ∧ d.bare = c.bare := by
  have hKinds : (lex file (String.ofList text)).map Token.kind =
      (us ++ [Token.endAt file .start]).map Token.kind := by
    have hText := @Cut.map_kind file _ _ _ hCut.truncate .start
    rw [List.append_nil] at hText
    rw [lex_eq_lexFrom, String.toList_ofList, hText, List.map_append]
    rfl
  have hSame := parseTokens_sameUpToSpans hKinds c.symbol
  have hParse : parseTokens (us ++ [Token.endAt file .start]) c.symbol = .ok c := by
    have hEnd : (Token.endAt file .start).kind = .endOfInput := rfl
    rcases parseTokens_complete hEnd hReadable hDerives with hOk | ⟨hDeep, -⟩
    · exact hOk
    · omega
  rw [hParse] at hSame
  change SameUpToSpans (parse file (String.ofList text) c.symbol) (.ok c) at hSame
  generalize parse file (String.ofList text) c.symbol = parsed at hSame
  cases hSame with
  | ok hBare => exact ⟨_, rfl, hBare⟩

theorem Construct.slice?_eq {before text after : List Char} {us : List Token} {c : Construct}
    (hSource : source.toList = before ++ (text ++ after)) (hDerives : Derives c.symbol us c)
    (hSpanned : c.isSpanned = true)
    (hSpan : ∀ s : Span, s.Covers us → s.start.offset = byteLength before ∧
      s.stop.offset = byteLength before + byteLength text) :
    c.slice? source = some (String.ofList text) := by
  obtain ⟨s, hSome, hCovers⟩ := hDerives.covers hSpanned
  obtain ⟨hStart, hStop⟩ := hSpan s hCovers
  rw [slice?, if_pos hSpanned, hSome]
  exact Span.slice?_eq hSource hStart hStop

/-- Every node of what is parsed has a slice of the text, which is parsed into the same node when it stands alone. If
all of it has one span, there is only ignored text around its slice. -/
theorem parse_slices (file : Option Path) (source : String) (symbol : GrammarSymbol) (n : Construct)
    (h : parse file source symbol = .ok n) :
    (∀ m ∈ n.walk, ∀ c ∈ m.readings, c.ReadsBack source) ∧
      (n.isSpanned = true → n.ReadsBack source ∧
        ∃ before slice after, source.toList = before ++ (slice ++ after) ∧ IgnoredRun true before ∧
          IgnoredRun false after ∧ n.slice? source = some (String.ofList slice)) := by
  obtain ⟨ts, last, hLex, hLast, hTokens, hDerives, hNesting⟩ := parse_eq_ok h
  have hError : ∀ t ∈ ts, t.kind.isError = false := by
    intro t ht
    apply isError_of_parse h
    rw [hLex]
    exact List.mem_append_left [last] ht
  constructor
  · intro m hm c hc
    obtain ⟨hInside, us, ⟨pre, post, rfl⟩, hPhrase⟩ := hDerives.readings m hm c hc
    have hSpanned := m.isSpanned_readings c hc
    obtain ⟨s, -, hCovers⟩ := hPhrase.covers hSpanned
    rw [List.append_assoc, List.append_assoc] at hLex
    obtain ⟨before, text, after, -, hSource, hCut, -, -, hSpan⟩ := lex_slice hLex hCovers.ne_nil (by simp)
      fun t ht => hError t (List.mem_append_left post ht)
    have hReadable : ∀ u ∈ us, u.kind.Readable := fun u hu => (hTokens u (by simp [hu])).2
    exact ⟨String.ofList text, Construct.slice?_eq hSource hPhrase hSpanned hSpan,
      parse_of_cut hCut hReadable hPhrase (Nat.le_trans hInside hNesting)⟩
  · intro hSpanned
    obtain rfl := hDerives.symbol_eq
    obtain ⟨s, -, hCovers⟩ := hDerives.covers hSpanned
    obtain ⟨before, text, after, m, hSource, hCut, hAfter, hBefore, hSpan⟩ :=
      @lex_slice _ _ [] _ _ hLex hCovers.ne_nil (by simp) hError
    have hSlice := Construct.slice?_eq hSource hDerives hSpanned hSpan
    exact ⟨⟨String.ofList text, hSlice, parse_of_cut hCut (fun t ht => (hTokens t ht).2) hDerives hNesting⟩,
      before, text, after, hSource, hBefore rfl, lexFrom_end m after hAfter, hSlice⟩

/-- A list with an empty string as a default value, and comments around the document. -/
theorem parse_slices_document :
    ∃ n, parse none "#\nquery($a:[B]=[\"\"])\x7bc:d\x7d #" .document = .ok n ∧
      (n.walk.flatMap Node.readings).length = 21 ∧
      (∀ m ∈ n.walk, ∀ c ∈ m.readings, c.ReadsBack "#\nquery($a:[B]=[\"\"])\x7bc:d\x7d #") ∧
      n.ReadsBack "#\nquery($a:[B]=[\"\"])\x7bc:d\x7d #" ∧
      ∃ before slice after, "#\nquery($a:[B]=[\"\"])\x7bc:d\x7d #".toList = before ++ (slice ++ after) ∧
        IgnoredRun true before ∧ IgnoredRun false after ∧
        n.slice? "#\nquery($a:[B]=[\"\"])\x7bc:d\x7d #" = some (String.ofList slice) := by
  have hReadings : (parse none "#\nquery($a:[B]=[\"\"])\x7bc:d\x7d #" .document).toOption.map (fun n =>
      (n.isSpanned, (n.walk.flatMap Node.readings).length)) = some (true, 21) := by decide +kernel
  cases hParse : parse none "#\nquery($a:[B]=[\"\"])\x7bc:d\x7d #" .document with
  | error e =>
    rw [hParse] at hReadings
    cases hReadings
  | ok n =>
    rw [hParse] at hReadings
    obtain ⟨hSpanned, hLength⟩ := Prod.mk.inj (Option.some.inj hReadings)
    obtain ⟨hNodes, hWhole⟩ := parse_slices none _ _ n hParse
    exact ⟨n, rfl, hLength, hNodes, hWhole hSpanned⟩

end GraphQLSyntax
