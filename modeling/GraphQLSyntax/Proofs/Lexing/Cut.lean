import GraphQLSyntax.Proofs.Lexing.Adjacent
import GraphQLSyntax.Proofs.Lexing.Lossless

/-!
# Cutting a text between tokens

A text can be cut at the ends of its tokens and anywhere in the ignored text between them. The tokens before such a
cut stay the same when the text after it changes, as long as nothing there goes on with the last of them.
-/

set_option autoImplicit false

namespace GraphQLSyntax

variable {file : Option Path} {after text : List Char} {ks : List TokenKind}

/-- Whole tokens, and ignored text before the place where the rest of the text follows. An open comment may only end
the text. -/
inductive Cut (after : List Char) : List Char → List TokenKind → Prop
  | gap {closed : Bool} {gap : List Char} : IgnoredRun closed gap → closed = true ∨ after = [] → Cut after gap []
  | token {k : TokenKind} {gap text : List Char} {ks : List TokenKind} : IgnoredRun true gap → k.WellFormed →
      k.StandsBefore (text ++ after) → Cut after text ks → Cut after (gap ++ (k.spelling ++ text)) (k :: ks)

theorem Cut.none (after : List Char) : Cut after [] [] := .gap (@IgnoredRun.nil true) (.inl rfl)

/-! ## Ignored runs -/

/-- What an open comment leaves of a run that follows it. -/
theorem IgnoredRun.dropWhile {closed : Bool} {gap : List Char} (h : IgnoredRun closed gap) :
    IgnoredRun closed (gap.dropWhile fun c => !isLineTerminator c) := by
  induction h with
  | nil => exact .nil
  | @char c cs hIgnored hRun ih =>
    cases hLine : isLineTerminator c with
    | true =>
      rw [List.dropWhile_cons_of_neg (by simp [hLine])]
      exact .char hIgnored hRun
    | false =>
      rw [List.dropWhile_cons_of_pos (by simp [hLine])]
      exact ih
  | @comment body cs hBody hLine _ hRun ih =>
    rw [List.dropWhile_cons_of_pos (by decide), List.dropWhile_append_of_pos (by simpa using hBody)]
    exact ih

theorem IgnoredRun.append {closed : Bool} {gap run : List Char} (hGap : IgnoredRun closed gap)
    (hRun : IgnoredRun true run) : IgnoredRun closed (gap ++ run) := by
  have hOpen : ∀ {run : List Char}, IgnoredRun true run → IgnoredRun closed run := by
    intro run hRun
    induction hRun with
    | nil => exact .nil
    | char hIgnored _ ih => exact .char hIgnored ih
    | comment hBody hLine hNonempty _ ih => exact .comment hBody hLine (fun _ => hNonempty rfl) ih
  induction hGap with
  | nil => exact hOpen hRun
  | char hIgnored _ ih => exact .char hIgnored ih
  | @comment body cs hBody hLine hNonempty _ ih =>
    cases cs with
    | cons c cs =>
      rw [List.cons_append, List.append_assoc]
      exact .comment hBody hLine (fun _ => List.cons_ne_nil _ _) ih
    | nil =>
      -- The comment was open, so it goes on to the first line terminator of the run.
      have hSplit := List.takeWhile_append_dropWhile (p := fun c => !isLineTerminator c) (l := run)
      have hBody' : ∀ c ∈ body ++ run.takeWhile (fun c => !isLineTerminator c), isLineTerminator c = false := by
        intro c hc
        rcases List.mem_append.mp hc with hc | hc
        · exact hBody c hc
        · simpa using of_mem_takeWhile hc
      rw [List.append_nil, List.cons_append, ← hSplit, ← List.append_assoc]
      exact .comment hBody' (stopsAt_dropWhile _ run) (fun hClosed => absurd rfl (hNonempty hClosed))
        (hOpen hRun.dropWhile)

/-! ## Tokens before a cut -/

theorem TokenKind.WellFormed.spelling_dot {k : TokenKind} (hWell : k.WellFormed) {t : List Char}
    (hText : k.spelling = '.' :: t) : t = ['.', '.'] := by
  have hNumber : ∀ kind, ¬ NumberText kind ('.' :: t) := by
    intro kind hNumber
    rcases hNumber.head with hMinus | hDigit
    · exact absurd hMinus (by decide)
    · cases hDigit
  by_cases hWord : k.isWord = true
  · obtain ⟨hName, -⟩ := hWell.word hWord
    rw [hText] at hName
    cases hName with
    | mk hStart => cases hStart
  · cases k with
    | punctuator p =>
      cases p <;> cases hText
      rfl
    | int raw => exact absurd (hText ▸ hWell) (hNumber .int)
    | float raw => exact absurd (hText ▸ hWell) (hNumber .float)
    | string raw =>
      obtain ⟨u, hu⟩ := StringText.exists_cons hWell
      rw [TokenKind.spelling, hu] at hText
      cases hText
    | endOfInput | error => cases hWell
    | name | boolean | null => exact absurd rfl hWord

/-- What the text before a cut starts with does not depend on the text after it. -/
theorem Cut.startsAlike (h : Cut after text ks) (hText : text ≠ []) (more more' : List Char) :
    StartsAlike (text ++ more) (text ++ more') := by
  have hGap : ∀ {closed : Bool} {c : Char} {gap : List Char}, IgnoredRun closed (c :: gap) → c ≠ '.' :=
    fun hRun => (@IgnoredRun.delimited _ _ [] hRun (.inr rfl) _ rfl).2.1
  cases h with
  | gap hRun =>
    obtain ⟨c, gap, rfl⟩ := List.exists_cons_of_ne_nil hText
    exact startsAlike_cons (hGap hRun) _ _
  | @token k gap text ks hRun hWell =>
    cases gap with
    | cons c gap => exact startsAlike_cons (hGap hRun) _ _
    | nil =>
      obtain ⟨c, t, hSpelling, -⟩ := hWell.exists_cons
      rw [List.nil_append, hSpelling]
      by_cases hDot : c = '.'
      · subst hDot
        obtain rfl := hWell.spelling_dot hSpelling
        exact startsAlike_append_cons '.' '.' ('.' :: text) more more'
      · exact startsAlike_cons hDot _ _

theorem TokenKind.StandsBefore.exchange {k : TokenKind} {after' : List Char} (h : k.StandsBefore (text ++ after))
    (hWell : k.WellFormed) (hText : Cut after text ks) (hRest : Delimited after') :
    k.StandsBefore (text ++ after') := by
  by_cases hNil : text = []
  · subst hNil
    exact (k.endsBefore_of_delimited hRest).standsBefore hWell
  · intro c t hSpelling
    exact scanToken_alike hWell hSpelling (h c t hSpelling) (hText.startsAlike hNil after after')

/-- Ignored text at the cut belongs to no token. -/
theorem Cut.insert {run : List Char} (h : Cut after text ks) (hRun : IgnoredRun true run) (hNonempty : run ≠ []) :
    Cut after (text ++ run) ks := by
  induction h with
  | gap hGap hClosed => exact .gap (hGap.append hRun) hClosed
  | @token k gap text ks hGap hWell hStands hText ih =>
    have hRest : Delimited (run ++ after) := hRun.delimited (.inl hNonempty)
    have hStands' := hStands.exchange hWell hText hRest
    rw [← List.append_assoc] at hStands'
    rw [List.append_assoc, List.append_assoc]
    exact .token hGap hWell hStands' ih

/-- The text may end at the cut. -/
theorem Cut.truncate (h : Cut after text ks) : Cut [] text ks := by
  induction h with
  | gap hGap => exact .gap hGap (.inr rfl)
  | token hGap hWell hStands hText ih =>
    exact .token hGap hWell (hStands.exchange hWell hText (fun _ hc => nomatch hc)) ih

/-! ## Cuts of a text that is read -/

theorem Cut.map_kind (h : Cut after text ks) (m : Mark) :
    (lexFrom file m (text ++ after)).map Token.kind =
      ks ++ (lexFrom file (m.advance text) after).map Token.kind := by
  induction h generalizing m with
  | gap hGap hClosed =>
    rw [lexFrom_run hGap hClosed]
    rfl
  | token hGap hWell hStands _ ih =>
    rw [List.append_assoc, List.append_assoc, lexFrom_run hGap (.inl rfl), lexFrom_spelling _ hWell hStands,
      List.map_cons, ih, Mark.advance_append, Mark.advance_append]
    rfl

/-- A text can be cut after any of its tokens. -/
theorem lexFrom_cut (m : Mark) (cs : List Char) {ts us : List Token} (h : lexFrom file m cs = ts ++ us)
    (hMore : us ≠ []) (hError : ∀ t ∈ ts, t.kind.isError = false) :
    ∃ text after, cs = text ++ after ∧ Cut after text (ts.map Token.kind) ∧
      lexFrom file (m.advance text) after = us ∧
      (m.advance text).position = (ts.getLast?.map fun t => t.span.stop).getD m.position := by
  induction ts generalizing m cs with
  | nil => exact ⟨[], cs, rfl, .none cs, h, rfl⟩
  | cons t ts ih =>
    obtain ⟨gap, rest, rfl, hGap, hWell, hStands, hSpan, hRest⟩ :=
      lexFrom_cons m cs h (by simp [hMore]) (hError t (by simp))
    obtain ⟨text, after, rfl, hText, hAfter, hLast⟩ :=
      ih _ rest hRest fun u hu => hError u (List.mem_cons_of_mem t hu)
    have hStop : ((m.advance gap).advance t.kind.spelling).position = t.span.stop := by rw [hSpan]
    rw [hStop, ← Mark.advance_append, ← Mark.advance_append] at hLast
    rw [← Mark.advance_append, ← Mark.advance_append] at hAfter
    refine ⟨gap ++ (t.kind.spelling ++ text), after, by simp, .token hGap hWell hStands hText, hAfter, ?_⟩
    rw [hLast, List.getLast?_cons]
    cases ts.getLast? <;> rfl

/-- The kinds of the tokens of a text without faults do not depend on where it stands. -/
theorem map_kind_lexFrom (m : Mark) (cs : List Char) (hError : ∀ t ∈ lexFrom file m cs, t.kind.isError = false)
    (file' : Option Path) (m' : Mark) :
    (lexFrom file' m' cs).map Token.kind = (lexFrom file m cs).map Token.kind := by
  obtain ⟨ts, last, hTokens, hLast, -⟩ := @lexFrom_snoc file m cs
  rw [hTokens] at hError
  obtain ⟨text, after, rfl, hText, hAfter, -⟩ :=
    lexFrom_cut m cs hTokens (by simp) fun t ht => hError t (List.mem_append_left _ ht)
  have hEnd : ∀ file (m : Mark), (lexFrom file m after).map Token.kind = [.endOfInput] := by
    intro file m
    have hRun := @lexFrom_run file _ _ [] (lexFrom_end _ after hAfter) (.inr rfl) m
    rw [List.append_nil] at hRun
    rw [hRun]
    rfl
  rw [hText.map_kind, hText.map_kind, hEnd, hEnd]

/-! ## The boundaries of tokens -/

/-- Where a text starts or ends, or one of its tokens does. -/
def IsBoundary (first last : Nat) (tokens : List Token) (n : Nat) : Prop :=
  n = first ∨ n = last ∨ ∃ t ∈ tokens, n = t.span.start.offset ∨ n = t.span.stop.offset

theorem IsBoundary.cons {first last n : Nat} {t : Token} {ts : List Token} (h : IsBoundary first last (t :: ts) n) :
    n = first ∨ n = t.span.start.offset ∨ IsBoundary t.span.stop.offset last ts n := by
  rcases h with hn | hn | ⟨u, hu, hn⟩
  · exact .inl hn
  · exact .inr (.inr (.inr (.inl hn)))
  · rcases List.mem_cons.mp hu with rfl | hu
    · exact .inr (hn.imp_right .inl)
    · exact .inr (.inr (.inr (.inr ⟨u, hu, hn⟩)))

/-- A text without faults can be cut at every boundary. -/
theorem exists_cut (m : Mark) (cs : List Char) (hError : ∀ t ∈ lexFrom file m cs, t.kind.isError = false) {n : Nat}
    (hn : IsBoundary m.offset (m.offset + byteLength cs) (lexFrom file m cs) n) :
    ∃ text after ks, cs = text ++ after ∧ n = m.offset + byteLength text ∧ Cut after text ks := by
  obtain ⟨ts, last, hTokens, -⟩ := @lexFrom_snoc file m cs
  rw [hTokens] at hError hn
  induction ts generalizing m cs with
  | nil =>
    have hRun := lexFrom_end m cs hTokens
    have hEnd := @lexFrom_run file _ _ [] hRun (.inr rfl) m
    rw [List.append_nil, hTokens] at hEnd
    obtain rfl : last = Token.endAt file (m.advance cs) := (List.cons.inj hEnd).1
    have hStop : n = (m.advance cs).offset →
        ∃ text after ks, cs = text ++ after ∧ n = m.offset + byteLength text ∧ Cut after text ks := by
      intro hn
      rw [Mark.advance_offset] at hn
      exact ⟨cs, [], [], by simp, hn, .gap hRun (.inr rfl)⟩
    rcases hn.cons with hn | hn | hn | hn | ⟨t, ht, -⟩
    · exact ⟨[], _, [], rfl, hn, .none _⟩
    · exact hStop hn
    · exact hStop hn
    · exact hStop (by rw [hn, Mark.advance_offset])
    · cases ht
  | cons t ts ih =>
    obtain ⟨gap, rest, rfl, hGap, hWell, hStands, hSpan, hRest⟩ :=
      lexFrom_cons m cs hTokens (by simp) (hError t (by simp))
    have hStart : t.span.start.offset = m.offset + byteLength gap := by
      rw [hSpan, ← Mark.advance_offset]
      rfl
    have hStop : t.span.stop.offset = ((m.advance gap).advance t.kind.spelling).offset := by
      rw [hSpan]
      rfl
    have hLength : m.offset + byteLength (gap ++ (t.kind.spelling ++ rest)) = t.span.stop.offset + byteLength rest := by
      rw [hStop, Mark.advance_offset, Mark.advance_offset]
      simp only [byteLength_append]
      omega
    rcases hn.cons with hn | hn | hn
    · exact ⟨[], _, [], rfl, hn, .none _⟩
    · exact ⟨gap, _, [], rfl, hn.trans hStart, .gap hGap (.inl rfl)⟩
    · rw [hLength, hStop] at hn
      obtain ⟨text, after, ks, rfl, hOffset, hText⟩ := ih _ rest hn
        (fun u hu => hError u (List.mem_cons_of_mem t hu)) hRest
      refine ⟨gap ++ (t.kind.spelling ++ text), after, t.kind :: ks, by simp, ?_, .token hGap hWell hStands hText⟩
      rw [hOffset, Mark.advance_offset, Mark.advance_offset]
      simp only [byteLength_append]
      omega

end GraphQLSyntax
