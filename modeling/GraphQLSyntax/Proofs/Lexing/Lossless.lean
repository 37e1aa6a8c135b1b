import GraphQLSyntax.Proofs.Lexing.Measures
import GraphQLSyntax.Proofs.Lexing.Run

/-!
# Lexing loses nothing

A text without faults is its tokens, each as it is spelled, with ignored text before, between and after
them. Spellings with ignored text between them are read back as the tokens they spell.
-/

set_option autoImplicit false

namespace GraphQLSyntax

variable {file : Option Path}

/-- Spaces, tabs, commas, line terminators and comments. In a closed run every comment is followed by a
line terminator. -/
inductive IgnoredRun (closed : Bool) : List Char → Prop
  | nil : IgnoredRun closed []
  | char {c : Char} {cs : List Char} : isIgnoredChar c = true → IgnoredRun closed cs →
      IgnoredRun closed (c :: cs)
  | comment {body cs : List Char} : (∀ c ∈ body, isLineTerminator c = false) →
      StopsAt (fun c => !isLineTerminator c) cs → (closed = true → cs ≠ []) → IgnoredRun closed cs →
      IgnoredRun closed ('#' :: (body ++ cs))

/-- A text that starts at an offset is cut into tokens at the byte offsets of their spans. -/
inductive Segments : Nat → List Char → List Token → Prop
  | done {n : Nat} {gap : List Char} : IgnoredRun false gap → Segments n gap []
  | token {n : Nat} {gap rest : List Char} {t : Token} {ts : List Token} : IgnoredRun true gap →
      t.kind.WellFormed → t.span.start.offset = n + byteLength gap →
      t.span.stop.offset = t.span.start.offset + byteLength t.kind.spelling →
      Segments t.span.stop.offset rest ts → Segments n (gap ++ (t.kind.spelling ++ rest)) (t :: ts)

/-- Spellings with ignored text between them. The last token may end the text. -/
inductive Joined : List Char → List TokenKind → Prop
  | done {gap : List Char} : IgnoredRun false gap → Joined gap []
  | last {k : TokenKind} {gap : List Char} : k.WellFormed → IgnoredRun false gap →
      Joined (k.spelling ++ gap) [k]
  | cons {k : TokenKind} {gap text : List Char} {ks : List TokenKind} : k.WellFormed → gap ≠ [] →
      IgnoredRun true gap → Joined text ks → Joined (k.spelling ++ (gap ++ text)) (k :: ks)

/-! ## What starts a token is not ignored -/

theorem isIgnoredChar_eq_false {c : Char} (h : isNameStart c = true ∨ c = '-' ∨ c.isDigit = true) :
    isIgnoredChar c = false ∧ c ≠ '#' := by
  have hNot : ∀ d : Char, isNameStart d = false → d ≠ '-' → d.isDigit = false → c ≠ d := by
    rintro d hStart hMinus hDigit rfl
    rcases h with h | h | h <;> simp_all
  have hSpace := hNot ' ' (by decide) (by decide) (by decide)
  have hTab := hNot '\t' (by decide) (by decide) (by decide)
  have hComma := hNot ',' (by decide) (by decide) (by decide)
  have hFeed := hNot '\n' (by decide) (by decide) (by decide)
  have hReturn := hNot '\r' (by decide) (by decide) (by decide)
  exact ⟨by simp [isIgnoredChar, isBlankChar, isLineTerminator, hSpace, hTab, hComma, hFeed, hReturn],
    hNot '#' (by decide) (by decide) (by decide)⟩

theorem TokenKind.WellFormed.exists_cons {k : TokenKind} (h : k.WellFormed) :
    ∃ c t, k.spelling = c :: t ∧ isIgnoredChar c = false ∧ c ≠ '#' := by
  by_cases hWord : k.isWord = true
  · obtain ⟨hName, -⟩ := h.word hWord
    cases hText : k.spelling with
    | nil =>
      rw [hText] at hName
      cases hName
    | cons c t =>
      rw [hText] at hName
      cases hName with
      | mk hStart _ =>
        obtain ⟨hIgnored, hSharp⟩ := isIgnoredChar_eq_false (.inl hStart)
        exact ⟨c, t, rfl, hIgnored, hSharp⟩
  · have hNumber : ∀ (kind : NumberKind) {cs : List Char}, NumberText kind cs →
        ∃ c t, cs = c :: t ∧ isIgnoredChar c = false ∧ c ≠ '#' := by
      intro kind cs hText
      obtain ⟨c, t, rfl⟩ := hText.exists_cons
      obtain ⟨hIgnored, hSharp⟩ := isIgnoredChar_eq_false (.inr hText.head)
      exact ⟨c, t, rfl, hIgnored, hSharp⟩
    cases k with
    | punctuator p => cases p <;> exact ⟨_, _, rfl, by decide, by decide⟩
    | int raw => exact hNumber .int h
    | float raw => exact hNumber .float h
    | string raw =>
      obtain ⟨t, ht⟩ := StringText.exists_cons h
      exact ⟨'"', t, ht, by decide, by decide⟩
    | endOfInput | error => cases h
    | name | boolean | null => exact absurd rfl hWord

/-! ## Cutting a text into its tokens -/

/-- The scan finds the token where its spelling stands before a text. -/
def TokenKind.StandsBefore (k : TokenKind) (rest : List Char) : Prop :=
  ∀ c t, k.spelling = c :: t → scanToken c (t ++ rest) = ⟨t.length, .token k⟩

theorem TokenKind.EndsBefore.standsBefore {k : TokenKind} {rest : List Char} (hWell : k.WellFormed)
    (h : k.EndsBefore rest) : k.StandsBefore rest :=
  fun _ _ hText => scanToken_append hWell hText h

theorem lexFrom_spelling (m : Mark) {k : TokenKind} {rest : List Char} (hWell : k.WellFormed)
    (h : k.StandsBefore rest) :
    lexFrom file m (k.spelling ++ rest) =
      ⟨k, ⟨m.position, (m.advance k.spelling).position, file⟩⟩ :: lexFrom file (m.advance k.spelling) rest := by
  obtain ⟨c, t, hText, hIgnored, hSharp⟩ := hWell.exists_cons
  have hScan := h c t hText
  have hTake : (c :: (t ++ rest)).take (t.length + 1) = c :: t := by simp
  have hDrop : (c :: (t ++ rest)).drop (t.length + 1) = rest := by simp
  rw [hText, List.cons_append, lexFrom_token m hIgnored hSharp, hScan, hTake, hDrop, Token.ofScan, hTake]

/-- An ignored run moves the mark and nothing else. An open comment may only end the text. -/
theorem lexFrom_run {closed : Bool} {gap text : List Char} (hGap : IgnoredRun closed gap)
    (hClosed : closed = true ∨ text = []) (m : Mark) :
    lexFrom file m (gap ++ text) = lexFrom file (m.advance gap) text := by
  induction hGap generalizing m with
  | nil => rfl
  | char hIgnored _ ih =>
    rw [List.cons_append, lexFrom_ignored m hIgnored, ih]
    rfl
  | @comment body cs hBody hLine hNonempty _ ih =>
    have hLine' : StopsAt (fun c => !isLineTerminator c) (cs ++ text) := by
      obtain hClosed | rfl := hClosed
      · obtain ⟨c, cs, rfl⟩ := List.exists_cons_of_ne_nil (hNonempty hClosed)
        exact hLine
      · rwa [List.append_nil]
    rw [List.cons_append, List.append_assoc, lexFrom_comment m hBody hLine', ih, ← Mark.advance_append]
    rfl

theorem Token.ofScan_sound {m : Mark} {c : Char} {cs : List Char}
    (h : (Token.ofScan file m (c :: cs) (scanToken c cs)).kind.isError = false) :
    ∃ k t rest, cs = t ++ rest ∧ k.WellFormed ∧ k.spelling = c :: t ∧
      scanToken c cs = ⟨t.length, .token k⟩ := by
  cases hScan : scanToken c cs with
  | mk extra outcome =>
    cases outcome with
    | token k =>
      obtain ⟨hWell, t, rest, hText, hSpelling, rfl⟩ := scanToken_sound hScan
      exact ⟨k, t, rest, hText, hWell, hSpelling, rfl⟩
    | fault lead fault =>
      rw [hScan] at h
      cases h

theorem Token.ofScan_kind_ne {m : Mark} {c : Char} {cs : List Char} :
    (Token.ofScan file m (c :: cs) (scanToken c cs)).kind ≠ .endOfInput := by
  intro hEnd
  obtain ⟨k, u, rest, rfl, hWell, hSpelling, hScan⟩ := Token.ofScan_sound (by rw [hEnd]; rfl)
  rw [hScan] at hEnd
  cases hEnd
  cases hWell

/-- Tokens before the last one are no end of the input, and the ones that are no errors are well-formed. -/
theorem lexFrom_snoc (m : Mark) (cs : List Char) :
    ∃ ts last, lexFrom file m cs = ts ++ [last] ∧ last.kind = .endOfInput ∧
      ∀ t ∈ ts, t.kind ≠ .endOfInput ∧ (t.kind.isError = false → t.kind.WellFormed) := by
  induction m, cs using lexFrom_induction file with
  | done m => exact ⟨[], Token.endAt file m, rfl, rfl, by simp⟩
  | ignored m c cs ts _ ih | comment m c cs ts _ _ ih => exact ih
  | token m c cs ts hIgnored hSharp ih =>
    obtain ⟨init, last, rfl, hLast, hInit⟩ := ih
    refine ⟨_ :: init, last, rfl, hLast, ?_⟩
    intro t ht
    rcases List.mem_cons.mp ht with rfl | ht
    · refine ⟨Token.ofScan_kind_ne, ?_⟩
      intro hError
      obtain ⟨k, u, rest, rfl, hWell, hSpelling, hScan⟩ := Token.ofScan_sound hError
      rw [hScan]
      exact hWell
    · exact hInit t ht

/-- A token is found after an ignored run, and the other tokens behind it. -/
theorem lexFrom_cons (m : Mark) (cs : List Char) {t : Token} {us : List Token}
    (h : lexFrom file m cs = t :: us) (hMore : us ≠ []) (hError : t.kind.isError = false) :
    ∃ gap rest, cs = gap ++ (t.kind.spelling ++ rest) ∧ IgnoredRun true gap ∧ t.kind.WellFormed ∧
      t.kind.StandsBefore rest ∧
      t.span = ⟨(m.advance gap).position, ((m.advance gap).advance t.kind.spelling).position, file⟩ ∧
      lexFrom file ((m.advance gap).advance t.kind.spelling) rest = us := by
  induction m, cs using text_induction with
  | done m =>
    obtain ⟨rfl, rfl⟩ := List.cons.inj h
    exact absurd rfl hMore
  | ignored m c cs hIgnored ih =>
    rw [lexFrom_ignored m hIgnored] at h
    obtain ⟨gap, rest, rfl, hGap, hFound⟩ := ih h
    exact ⟨c :: gap, rest, rfl, .char hIgnored hGap, hFound⟩
  | comment m body cs hBody hLine ih =>
    rw [lexFrom_comment m hBody hLine] at h
    obtain ⟨gap, rest, rfl, hGap, hWell, hFound⟩ := ih h
    have hNonempty : gap ≠ [] := by
      rintro rfl
      obtain ⟨c, u, hText, hIgnored, -⟩ := hWell.exists_cons
      have hTerminator := hLine c (by simp [hText])
      simp_all [isIgnoredChar]
    have hGapLine : StopsAt (fun c => !isLineTerminator c) gap := by
      obtain ⟨c, gap, rfl⟩ := List.exists_cons_of_ne_nil hNonempty
      exact hLine
    rw [← Mark.advance_append] at hFound
    exact ⟨'#' :: (body ++ gap), rest, by simp, .comment hBody hGapLine (fun _ => hNonempty) hGap, hWell, hFound⟩
  | token m c cs hIgnored hSharp ih =>
    rw [lexFrom_token m hIgnored hSharp] at h
    obtain ⟨rfl, hRest⟩ := List.cons.inj h
    obtain ⟨k, u, rest, rfl, hWell, hSpelling, hScan⟩ := Token.ofScan_sound hError
    have hStands : k.StandsBefore rest := by
      intro d v hText
      rw [hSpelling] at hText
      cases hText
      exact hScan
    have hTake : (c :: (u ++ rest)).take (u.length + 1) = k.spelling := by simp [hSpelling]
    have hDrop : (c :: (u ++ rest)).drop (u.length + 1) = rest := by simp
    rw [hScan, hTake, hDrop] at hRest
    rw [hScan, Token.ofScan, hTake]
    exact ⟨[], rest, by rw [hSpelling]; rfl, .nil, hWell, hStands, rfl, hRest⟩

/-- When no token is left, ignored text is all there is. -/
theorem lexFrom_end (m : Mark) (cs : List Char) {t : Token} (h : lexFrom file m cs = [t]) :
    IgnoredRun false cs := by
  induction m, cs using text_induction with
  | done m => exact .nil
  | ignored m c cs hIgnored ih =>
    rw [lexFrom_ignored m hIgnored] at h
    exact .char hIgnored (ih h)
  | comment m body cs hBody hLine ih =>
    rw [lexFrom_comment m hBody hLine] at h
    exact .comment hBody hLine (by simp) (ih h)
  | token m c cs hIgnored hSharp _ =>
    rw [lexFrom_token m hIgnored hSharp] at h
    obtain ⟨ts, last, hRest, -⟩ := @lexFrom_snoc file (m.advance ((c :: cs).take ((scanToken c cs).extra + 1)))
      ((c :: cs).drop ((scanToken c cs).extra + 1))
    rw [hRest] at h
    simp at h

theorem segments_of_lexFrom (m : Mark) (cs : List Char) (hError : ∀ t ∈ lexFrom file m cs, t.kind.isError = false) :
    ∃ ts last, lexFrom file m cs = ts ++ [last] ∧ last.kind = .endOfInput ∧ Segments m.offset cs ts := by
  obtain ⟨ts, last, hTokens, hLast, -⟩ := @lexFrom_snoc file m cs
  refine ⟨ts, last, hTokens, hLast, ?_⟩
  rw [hTokens] at hError
  induction ts generalizing m cs with
  | nil => exact .done (lexFrom_end m cs hTokens)
  | cons t ts ih =>
    obtain ⟨gap, rest, rfl, hGap, hWell, -, hSpan, hRest⟩ :=
      lexFrom_cons m cs hTokens (by simp) (hError t (by simp))
    have hOffset := Mark.advance_offset (m.advance gap) t.kind.spelling
    have hSegments := ih _ rest (fun u hu => hError u (List.mem_cons_of_mem t hu)) hRest
    have hStop : t.span.stop.offset = ((m.advance gap).advance t.kind.spelling).offset := by
      rw [hSpan]
      rfl
    have hStart : t.span.start.offset = (m.advance gap).offset := by
      rw [hSpan]
      rfl
    rw [← hStop] at hSegments
    exact .token hGap hWell (by rw [hStart, Mark.advance_offset]) (by rw [hStop, hOffset, hStart]) hSegments

theorem Segments.slice {source : String} {n : Nat} {text : List Char} {ts : List Token}
    (h : Segments n text ts) (before : List Char) (hSource : source.toList = before ++ text)
    (hn : n = byteLength before) :
    ∀ t ∈ ts, t.span.slice? source = some (String.ofList t.kind.spelling) := by
  induction h generalizing before with
  | done => simp
  | @token n gap rest t ts _ _ hStart hStop _ ih =>
    have hGap : t.span.start.offset = byteLength (before ++ gap) := by
      rw [hStart, byteLength_append, hn]
    intro u hu
    rcases List.mem_cons.mp hu with rfl | hu
    · have hText : source.toList = before ++ gap ++ (u.kind.spelling ++ rest) := by
        rw [hSource, List.append_assoc]
      exact Span.slice?_eq hText hGap (by rw [hStop, hGap])
    · exact ih (before ++ gap ++ t.kind.spelling) (by simp [hSource])
        (by rw [hStop, hGap, byteLength_append _ t.kind.spelling]) u hu

/-! ## Reading spellings back -/

/-- A text with the tokens that it spells, each before something that cannot go on with it. -/
inductive Spelled : List Char → List TokenKind → Prop
  | done : Spelled [] []
  | ignored {c : Char} {cs : List Char} {ks : List TokenKind} : isIgnoredChar c = true →
      Spelled cs ks → Spelled (c :: cs) ks
  | comment {body cs : List Char} {ks : List TokenKind} : (∀ c ∈ body, isLineTerminator c = false) →
      StopsAt (fun c => !isLineTerminator c) cs → Spelled cs ks → Spelled ('#' :: (body ++ cs)) ks
  | token {k : TokenKind} {rest : List Char} {ks : List TokenKind} : k.WellFormed →
      k.EndsBefore rest → Spelled rest ks → Spelled (k.spelling ++ rest) (k :: ks)

theorem Spelled.map_kind {text : List Char} {ks : List TokenKind} (h : Spelled text ks) (m : Mark) :
    (lexFrom file m text).map Token.kind = ks ++ [.endOfInput] := by
  induction h generalizing m with
  | done => rfl
  | ignored hIgnored _ ih =>
    rw [lexFrom_ignored m hIgnored]
    exact ih _
  | comment hBody hLine _ ih =>
    rw [lexFrom_comment m hBody hLine]
    exact ih _
  | token hWell hEnds _ ih =>
    rw [lexFrom_spelling m hWell (hEnds.standsBefore hWell), List.map_cons, ih]
    rfl

theorem Spelled.of_run {closed : Bool} {gap text : List Char} {ks : List TokenKind}
    (hGap : IgnoredRun closed gap) (hClosed : closed = true ∨ text = []) (h : Spelled text ks) :
    Spelled (gap ++ text) ks := by
  induction hGap with
  | nil => exact h
  | char hIgnored _ ih => exact .ignored hIgnored ih
  | @comment body cs hBody hLine hNonempty _ ih =>
    rw [List.cons_append, List.append_assoc]
    refine .comment hBody ?_ ih
    rcases hClosed with hClosed | rfl
    · obtain ⟨c, cs, rfl⟩ := List.exists_cons_of_ne_nil (hNonempty hClosed)
      simpa [StopsAt] using hLine
    · simpa using hLine

/-- What goes on with no token, whatever stands before it. -/
def Delimited (rest : List Char) : Prop :=
  ∀ c ∈ rest.head?, isNameContinue c = false ∧ c ≠ '.' ∧ c ≠ '"'

theorem TokenKind.endsBefore_of_delimited (k : TokenKind) {rest : List Char} (h : Delimited rest) :
    k.EndsBefore rest := by
  have hNumber : EndsNumber rest := by
    intro c hc
    obtain ⟨hName, hPoint, -⟩ := h c hc
    have hLetters : ∀ d : Char, isNameContinue d = true → c ≠ d := by
      rintro d hd rfl
      rw [hName] at hd
      cases hd
    refine ⟨?_, hLetters 'e' rfl, hLetters 'E' rfl, hPoint⟩
    simp only [isNameContinue, Char.isAlphanum, Bool.or_eq_false_iff] at hName
    exact hName.2.2
  cases k with
  | name | boolean | null => exact fun c hc => (h c hc).1
  | int | float => exact hNumber
  | string => exact fun hQuote => (h '"' hQuote).2.2 rfl
  | punctuator | endOfInput | error => trivial

theorem IgnoredRun.delimited {closed : Bool} {gap text : List Char} (hGap : IgnoredRun closed gap)
    (hStarts : gap ≠ [] ∨ text = []) : Delimited (gap ++ text) := by
  intro c hc
  cases hGap with
  | nil =>
    rcases hStarts with hStarts | rfl
    · exact absurd rfl hStarts
    · cases hc
  | char hIgnored _ =>
    cases hc
    simp only [isIgnoredChar, isBlankChar, isLineTerminator, Bool.or_eq_true,
      decide_eq_true_eq] at hIgnored
    rcases hIgnored with ((rfl | rfl) | rfl | rfl) | rfl <;> decide
  | comment =>
    cases hc
    decide

theorem Joined.spelled {text : List Char} {ks : List TokenKind} (h : Joined text ks) :
    Spelled text ks := by
  induction h with
  | done hGap => simpa using Spelled.of_run hGap (.inr rfl) .done
  | @last k gap hWell hGap =>
    have hRest : Spelled gap [] := by simpa using Spelled.of_run hGap (.inr rfl) .done
    have hDelimited : Delimited (gap ++ []) := hGap.delimited (.inr rfl)
    rw [List.append_nil] at hDelimited
    exact .token hWell (k.endsBefore_of_delimited hDelimited) hRest
  | @cons k gap text ks hWell hNonempty hGap _ ih =>
    exact .token hWell (k.endsBefore_of_delimited (hGap.delimited (.inl hNonempty)))
      (.of_run hGap (.inl rfl) ih)

theorem Spelled.lex {text : List Char} {ks : List TokenKind} (h : Spelled text ks) :
    (lex file (String.ofList text)).map Token.kind = ks ++ [.endOfInput] := by
  rw [lex_eq_lexFrom, String.toList_ofList]
  exact h.map_kind .start

/-- A text without faults is ignored runs and spellings in turn, and spellings with ignored runs between
them are read as the tokens they spell. -/
theorem lex_lossless (file : Option Path) :
    (∀ source : String, (∀ t ∈ lex file source, t.kind.isError = false) →
      ∃ ts last, lex file source = ts ++ [last] ∧ last.kind = .endOfInput ∧
        Segments 0 source.toList ts ∧
        ∀ t ∈ ts, t.span.slice? source = some (String.ofList t.kind.spelling)) ∧
    ∀ (lead text : List Char) (ks : List TokenKind), IgnoredRun true lead → Joined text ks →
      (lex file (String.ofList (lead ++ text))).map Token.kind = ks ++ [.endOfInput] := by
  constructor
  · intro source hError
    obtain ⟨ts, last, hLex, hLast, hSegments⟩ := segments_of_lexFrom .start source.toList hError
    exact ⟨ts, last, hLex, hLast, hSegments, hSegments.slice [] rfl rfl⟩
  · intro lead text ks hLead hJoined
    exact (Spelled.of_run hLead (.inl rfl) hJoined.spelled).lex

/-- A comment that a carriage return ends, a float before a dot, and an escaped quote. -/
theorem lex_lossless_punctuated :
    (∃ ts last, lex none "#a\r[ ...,-1.5e3 \"\\\"\"" = ts ++ [last] ∧ last.kind = .endOfInput ∧
      Segments 0 "#a\r[ ...,-1.5e3 \"\\\"\"".toList ts ∧
      ∀ t ∈ ts, t.span.slice? "#a\r[ ...,-1.5e3 \"\\\"\"" = some (String.ofList t.kind.spelling)) ∧
    (lex none (String.ofList (['#', 'a', '\r'] ++ (TokenKind.spelling .null ++ ([','] ++
      (TokenKind.spelling (.punctuator .ellipsis) ++ [])))))).map Token.kind =
        [.null, .punctuator .ellipsis] ++ [.endOfInput] :=
  ⟨(lex_lossless none).1 _ (by decide),
    (lex_lossless none).2 _ _ _
      (@IgnoredRun.comment _ ['a'] ['\r'] (by simp [isLineTerminator]) (by simp [StopsAt, isLineTerminator])
        (by simp) (.char rfl .nil))
      (.cons trivial (by simp) (.char rfl .nil) (.last trivial .nil))⟩

end GraphQLSyntax
