import GraphQLSyntax.Proofs.Lexing.Order
import GraphQLSyntax.Proofs.Lexing.Positions

/-!
# Progress of the lexer

Whatever a text is, its tokens have characters of their own, so they are no more than its bytes. A lexer that is asked
for one token at a time hands out these tokens and then nothing any more.
-/

set_option autoImplicit false

namespace GraphQLSyntax

variable {file : Option Path}

/-! ## First characters

A fault need not start where its token does, but there is a character where it starts. It ends no line, and the token
goes on behind it. -/

def LiteralEnd.HasFirst (text : List Char) (e : LiteralEnd) : Prop :=
  e.lead < e.length ∧ ∃ c rest, text.drop e.lead = c :: rest ∧ isLineTerminator c = false

def Scan.HasFirst (text : List Char) (s : Scan) : Prop :=
  s.lead ≤ s.extra ∧ ∃ c rest, text.drop s.lead = c :: rest ∧ isLineTerminator c = false

theorem LiteralEnd.HasFirst.quote {text : List Char} {e : LiteralEnd} (hLead : e.lead = 0) (hLength : 0 < e.length) :
    e.HasFirst ('"' :: text) := by
  rw [HasFirst, hLead]
  exact ⟨hLength, '"', text, rfl, by decide⟩

theorem LiteralEnd.HasFirst.past {q cs : List Char} {c : Char} {length : Nat} {fault : LexFault}
    (hc : isLineTerminator c = false) (hLength : q.length + 1 < length) :
    (LiteralEnd.fault (q.length + 1) length fault).HasFirst ('"' :: (q ++ c :: cs)) :=
  ⟨hLength, c, cs, by simp [lead], hc⟩

theorem scanQuoted_hasFirst {n : Nat} (cs : List Char) :
    ∀ q, q.length + 1 = n → (scanQuoted n cs).HasFirst ('"' :: (q ++ cs)) := by
  fun_induction scanQuoted n cs with
  | case1 n | case2 n | case10 n =>
    rintro q rfl
    exact .quote rfl (Nat.succ_pos _)
  | case3 n a b c d cs hScalar ih =>
    rintro q rfl
    have hTail := ih (q ++ ['\\', 'u', a, b, c, d]) (by simp)
    rwa [List.append_assoc] at hTail
  | case4 n | case5 n | case8 n =>
    rintro q rfl
    exact .past (by decide) (by omega)
  | case6 n c cs hLong hShort hNamed ih =>
    rintro q rfl
    have hTail := ih (q ++ ['\\', c]) (by simp)
    rwa [List.append_assoc] at hTail
  | case7 n | case9 n =>
    rintro q rfl
    exact .past (by decide) (Nat.lt_succ_self _)
  | case11 n c cs hQuote hLong hShort hEscape hLone hLine hPlain ih =>
    rintro q rfl
    have hTail := ih (q ++ [c]) (by simp)
    rwa [List.append_assoc] at hTail
  | case12 n c cs hQuote hLong hShort hEscape hLone hLine hPlain =>
    rintro q rfl
    exact .past (by simpa using hLine) (Nat.lt_succ_self _)

theorem scanBlock_hasFirst {n : Nat} (cs : List Char) :
    ∀ q, q.length + 1 = n → (scanBlock n cs).HasFirst ('"' :: (q ++ cs)) := by
  fun_induction scanBlock n cs with
  | case1 n | case2 n =>
    rintro q rfl
    exact .quote rfl (Nat.succ_pos _)
  | case3 n cs ih =>
    rintro q rfl
    have hTail := ih (q ++ '\\' :: tripleQuote) (by simp [tripleQuote])
    rwa [List.append_assoc] at hTail
  | case4 n c cs hClose hEscape hBlock ih =>
    rintro q rfl
    have hTail := ih (q ++ [c]) (by simp)
    rwa [List.append_assoc] at hTail
  | case5 n c cs hClose hEscape hBlock =>
    rintro q rfl
    refine .past ?_ (Nat.lt_succ_self _)
    -- Line terminators may stand in a block string, so the fault is no one of them.
    rw [isBlockCharacter, Bool.or_eq_true, Bool.or_eq_true, not_or, not_or] at hBlock
    simpa using hBlock.1.2

theorem scanString_hasFirst (cs : List Char) : (scanString cs).HasFirst ('"' :: cs) := by
  have hEnd : (literalEnd cs).HasFirst ('"' :: cs) := by
    unfold literalEnd
    split
    · exact scanBlock_hasFirst _ ['"', '"'] rfl
    · exact scanQuoted_hasFirst cs [] rfl
  rw [scanString]
  cases hCase : literalEnd cs with
  | closed length => exact ⟨Nat.zero_le _, '"', cs, rfl, by decide⟩
  | fault lead length fault =>
    rw [hCase] at hEnd
    exact ⟨Nat.le_sub_one_of_lt hEnd.1, hEnd.2⟩

theorem Scan.HasFirst.lead {c : Char} {cs : List Char} {s : Scan} (hc : isLineTerminator c = false)
    (hLead : s.lead = 0) : s.HasFirst (c :: cs) := by
  rw [HasFirst, hLead]
  exact ⟨Nat.zero_le _, c, cs, rfl, hc⟩

theorem scanToken_hasFirst {c : Char} (hc : isLineTerminator c = false) (cs : List Char) :
    (scanToken c cs).HasFirst (c :: cs) := by
  unfold scanToken
  split
  · exact .lead hc rfl
  · split
    · exact .lead hc (scanDots_oneLine cs).2
    · split
      · rename_i hQuote
        subst hQuote
        exact scanString_hasFirst cs
      · split
        · exact .lead hc rfl
        · split
          · exact .lead hc (scanNumberToken_lead _)
          · exact .lead hc rfl

/-! ## Tokens are not empty -/

/-- A token stands where there is a character that ends no line, and ends behind it. -/
def Token.StandsIn (source : List Char) (t : Token) : Prop :=
  ∃ before c after, source = before ++ c :: after ∧ isLineTerminator c = false ∧
    t.span.start = positionAfter before ∧ byteLength before < t.span.stop.offset

theorem Token.ofScan_start (m : Mark) (text : List Char) (s : Scan) :
    (Token.ofScan file m text s).span.start = (m.advance (text.take s.lead)).position := by
  obtain ⟨extra, outcome⟩ := s
  cases outcome <;> rfl

theorem Token.ofScan_standsIn {before text : List Char} {s : Scan} (h : s.HasFirst text) :
    (Token.ofScan file (Mark.start.advance before) text s).StandsIn (before ++ text) := by
  obtain ⟨hLead, c, after, hDrop, hc⟩ := h
  have hText : text.take s.lead ++ c :: after = text := by rw [← hDrop, List.take_append_drop]
  refine ⟨before ++ text.take s.lead, c, after, by rw [List.append_assoc, hText], hc, ?_, ?_⟩
  · rw [Token.ofScan_start, ← Mark.advance_append, Mark.position_start]
  · obtain ⟨n, hn⟩ : ∃ n, s.extra + 1 = s.lead + (n + 1) := ⟨s.extra - s.lead, by omega⟩
    have hStop : text.take (s.extra + 1) = text.take s.lead ++ c :: after.take n := by
      rw [hn, List.take_add, hDrop, List.take_succ_cons]
    have hSize := c.utf8Size_pos
    rw [Token.ofScan_stop, ← Mark.advance_append, Mark.position_start, hStop]
    simp only [positionAfter, byteLength_append, byteLength]
    omega

theorem lexFrom_standsIn (m : Mark) (cs : List Char) :
    ∀ before, m = Mark.start.advance before →
      ∀ t ∈ lexFrom file m cs, t.kind ≠ .endOfInput → t.StandsIn (before ++ cs) := by
  induction m, cs using lexFrom_induction file with
  | done m =>
    rintro before - t ht hEnd
    cases List.mem_singleton.mp ht
    exact absurd rfl hEnd
  | ignored m c cs ts _ ih =>
    rintro before rfl
    have hRest := ih (before ++ [c]) (Mark.advance_append _ _ [c]).symm
    rwa [List.append_assoc] at hRest
  | comment m body cs ts _ _ ih =>
    rintro before rfl
    have hRest := ih (before ++ '#' :: body) (Mark.advance_append _ _ _).symm
    rwa [List.append_assoc] at hRest
  | token m c cs ts hIgnored hSharp ih =>
    rintro before rfl t ht
    rcases List.mem_cons.mp ht with rfl | ht
    · intro _
      apply Token.ofScan_standsIn
      exact scanToken_hasFirst (isLineTerminator_of_not_ignored hIgnored) cs
    · have hRest := ih (before ++ (c :: cs).take _) (Mark.advance_append _ _ _).symm t ht
      rwa [List.append_assoc, List.take_append_drop] at hRest

theorem Token.StandsIn.nonempty {source : List Char} {t : Token} (h : t.StandsIn source) :
    t.span.start.offset < t.span.stop.offset := by
  obtain ⟨before, c, after, -, -, hStart, hStop⟩ := h
  rw [hStart]
  exact hStop

/-- Tokens one after the other, none of them empty, are no more than the bytes that they stand in. -/
theorem length_le_of_nonempty {ts : List Token} {n bound : Nat}
    (hSorted : ts.Pairwise fun t u => t.span.stop.offset ≤ u.span.start.offset)
    (hNonempty : ∀ t ∈ ts, t.span.start.offset < t.span.stop.offset)
    (hLow : ∀ t ∈ ts, n ≤ t.span.start.offset) (hHigh : ∀ t ∈ ts, t.span.stop.offset ≤ bound) (hBound : n ≤ bound) :
    n + ts.length ≤ bound := by
  induction ts generalizing n with
  | nil => exact hBound
  | cons t ts ih =>
    obtain ⟨hNext, hSorted⟩ := List.pairwise_cons.mp hSorted
    obtain ⟨hToken, hNonempty⟩ := List.forall_mem_cons.mp hNonempty
    obtain ⟨hStop, hHigh⟩ := List.forall_mem_cons.mp hHigh
    have hRest := ih hSorted hNonempty hNext hHigh hStop
    have hStart := hLow t List.mem_cons_self
    rw [List.length_cons]
    omega

/-! ## One token at a time -/

/-- Passes over what is ignored at the front of a text. The first `skip` characters were passed already. -/
def skipIgnored (m : Mark) : Nat → List Char → Mark × List Char
  | _, [] => (m, [])
  | skip + 1, _ :: cs => skipIgnored m skip cs
  | 0, c :: cs =>
    if isIgnoredChar c then skipIgnored (m.step c) 0 cs
    else if c = '#' then
      let run := commentRun cs
      skipIgnored (m.passRun ('#' :: cs.take run)) run cs
    else (m, c :: cs)

/-- A lexer has reached a mark, has the rest of its text before it, and knows whether the end of the input was handed
out. -/
structure Lexer where
  mark : Mark
  rest : List Char
  finished : Bool

namespace Lexer

def ofText (text : String) : Lexer := ⟨.start, text.toList, false⟩

/-- The token behind what is ignored, and the lexer behind that token. -/
def nextToken (file : Option Path) (l : Lexer) : Token × Lexer :=
  match skipIgnored l.mark 0 l.rest with
  | (m, []) => (.endAt file m, { l with mark := m, rest := [] })
  | (m, c :: cs) =>
    let scan := scanToken c cs
    let length := scan.extra + 1
    let stop := m.passToken ((c :: cs).take length)
    (.scanned file m stop (c :: cs) scan, { l with mark := stop, rest := (c :: cs).drop length })

def next? (file : Option Path) (l : Lexer) : Option Token × Lexer :=
  if l.finished then (none, l)
  else
    let (token, l) := l.nextToken file
    (some token, { l with finished := token.kind == .endOfInput })

/-- What the call with a number yields, counted from zero. -/
def yield? (file : Option Path) : Nat → Lexer → Option Token
  | 0, l => (l.next? file).1
  | n + 1, l => yield? file n (l.next? file).2

/-- The tokens that were not handed out yet. -/
def left (file : Option Path) (l : Lexer) : List Token :=
  if l.finished then [] else lexFrom file l.mark l.rest

end Lexer

theorem skipIgnored_eq (m : Mark) (skip : Nat) (cs : List Char) :
    skipIgnored m skip cs = skipIgnored m 0 (cs.drop skip) := by
  induction cs generalizing skip with
  | nil => simp [skipIgnored]
  | cons c cs ih =>
    cases skip with
    | zero => rfl
    | succ skip => simpa [skipIgnored] using ih skip

/-- The tokens of a text are those behind what is ignored at its front, where nothing is ignored any more. -/
theorem lexFrom_skipIgnored (m : Mark) (cs : List Char) :
    lexFrom file m cs = lexFrom file (skipIgnored m 0 cs).1 (skipIgnored m 0 cs).2 ∧
      ∀ c rest, (skipIgnored m 0 cs).2 = c :: rest → isIgnoredChar c = false ∧ c ≠ '#' := by
  induction m, cs using text_induction with
  | done m => exact ⟨rfl, fun c rest hRest => nomatch hRest⟩
  | ignored m c cs hIgnored ih =>
    rw [lexFrom_ignored m hIgnored, skipIgnored, if_pos hIgnored]
    exact ih
  | comment m body cs hBody hLine ih =>
    rw [lexFrom_comment m hBody hLine, skipIgnored, if_neg (by decide), if_pos rfl, commentRun_append hBody hLine,
      skipIgnored_eq, List.take_left, List.drop_left, m.passRun_eq (.cons (by decide) hBody)]
    exact ih
  | token m c cs hIgnored hSharp ih =>
    rw [skipIgnored, if_neg (by simp [hIgnored]), if_neg hSharp]
    refine ⟨rfl, ?_⟩
    rintro d rest hRest
    cases hRest
    exact ⟨hIgnored, hSharp⟩

namespace Lexer

/-- A call hands out the first of the tokens that are left, if there is one, and leaves the others. -/
theorem next?_left (l : Lexer) :
    (l.next? file).1 = (l.left file).head? ∧ (l.next? file).2.left file = (l.left file).tail := by
  cases hFinished : l.finished with
  | true => simp [next?, left, hFinished]
  | false =>
    obtain ⟨hLex, hFirst⟩ := @lexFrom_skipIgnored file l.mark l.rest
    rw [next?, left, hFinished, if_neg Bool.false_ne_true, if_neg Bool.false_ne_true, hLex, nextToken]
    generalize skipIgnored l.mark 0 l.rest = skipped at hFirst ⊢
    obtain ⟨m, rest⟩ := skipped
    cases rest with
    | nil => exact ⟨rfl, rfl⟩
    | cons c cs =>
      obtain ⟨hIgnored, hSharp⟩ := hFirst c cs rfl
      have hLine := isLineTerminator_of_not_ignored hIgnored
      have hMore : ((Token.ofScan file m (c :: cs) (scanToken c cs)).kind == .endOfInput) = false := by
        simpa using Token.ofScan_kind_ne
      dsimp only
      rw [lexFrom_token m hIgnored hSharp, Token.scanned_eq m hLine, (passToken_scanned m hLine cs).1]
      exact ⟨rfl, by simp [left, hMore]⟩

theorem yield?_eq (n : Nat) (l : Lexer) : l.yield? file n = (l.left file)[n]? := by
  induction n generalizing l with
  | zero => rw [yield?, l.next?_left.1, List.head?_eq_getElem?]
  | succ n ih => rw [yield?, ih, l.next?_left.2, List.getElem?_tail]

end Lexer

/-- Asked for one token at a time, the lexer hands out the tokens of a text and then nothing any more. The last one, and
no other, is the end of the input and stands behind the last byte. All others have bytes of their own, so there is at
most one of them for each byte. -/
theorem lex_progress (file : Option Path) (source : String) :
    ∃ ts last, lex file source = ts ++ [last] ∧
      (∀ n, (Lexer.ofText source).yield? file n = (ts ++ [last])[n]?) ∧
      last.kind = .endOfInput ∧ last.span.start.offset = source.utf8ByteSize ∧
      last.span.stop.offset = source.utf8ByteSize ∧
      (∀ t ∈ ts, t.kind ≠ .endOfInput ∧ t.span.start.offset < t.span.stop.offset) ∧
      (ts ++ [last]).Pairwise (fun t u => t.span.stop.offset ≤ u.span.start.offset) ∧
      (ts ++ [last]).length ≤ source.utf8ByteSize + 1 := by
  obtain ⟨ts, hLex, hTokens⟩ := lex_endAt file source
  have hSize : (Mark.start.advance source.toList).offset = source.utf8ByteSize := by
    rw [Mark.advance_offset, byteLength_eq, String.ofList_toList]
    exact Nat.zero_add _
  have hNonempty : ∀ t ∈ ts, t.span.start.offset < t.span.stop.offset := by
    intro t ht
    have hMem : t ∈ lexFrom file .start source.toList := by
      rw [← lex_eq_lexFrom, hLex]
      exact List.mem_append_left _ ht
    exact (lexFrom_standsIn _ _ [] rfl t hMem (hTokens t ht)).nonempty
  have hSorted := (@lexFrom_sorted file .start source.toList).1
  rw [← lex_eq_lexFrom, hLex] at hSorted
  obtain ⟨hInit, -, hEnd⟩ := List.pairwise_append.mp hSorted
  have hCount : 0 + ts.length ≤ source.utf8ByteSize := by
    apply length_le_of_nonempty hInit hNonempty (fun _ _ => Nat.zero_le _) _ (Nat.zero_le _)
    intro t ht
    rw [← hSize]
    exact hEnd t ht _ (List.mem_singleton_self _)
  refine ⟨ts, Token.endAt file (Mark.start.advance source.toList), hLex, ?_, rfl, hSize, hSize,
    fun t ht => ⟨hTokens t ht, hNonempty t ht⟩, hSorted, ?_⟩
  · intro n
    rw [Lexer.yield?_eq, ← hLex]
    rfl
  · rw [List.length_append, List.length_singleton]
    omega

end GraphQLSyntax
