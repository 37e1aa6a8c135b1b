import GraphQLSyntax.Proofs.Lexing.Measures
import GraphQLSyntax.Proofs.Lexing.Run

/-!
# Positions of tokens

Every position that the lexer reports is told by the text before it alone, and none of them comes between
a carriage return and the line feed that belongs to it. The scan of a token could only stop there after
a carriage return, which is part of no token but a block string.
-/

set_option autoImplicit false

namespace GraphQLSyntax

variable {file : Option Path}

/-- A place between a carriage return and the line feed after it. -/
def CutsPair (before after : List Char) : Prop :=
  before.getLast? = some '\r' ∧ after.head? = some '\n'

/-- A position that counts what stands before some place of a text. -/
def Position.IsIn (source : List Char) (p : Position) : Prop :=
  ∃ before after, source = before ++ after ∧ ¬ CutsPair before after ∧ p = positionAfter before

def Span.IsIn (source : List Char) (s : Span) : Prop :=
  s.start.IsIn source ∧ s.stop.IsIn source

def TokenKind.notes : TokenKind → List Note
  | error _ notes => notes
  | _ => []

/-! ## Places that cut no pair -/

def CleanCut (text : List Char) (n : Nat) : Prop := ¬ CutsPair (text.take n) (text.drop n)

theorem OneLine.cleanCut {text : List Char} {n m : Nat} (h : OneLine (text.take n)) (hm : m ≤ n) :
    CleanCut text m := by
  rintro ⟨hLast, -⟩
  have hPrefix : text.take m <+: text.take n := by
    rw [← Nat.min_eq_left hm, ← List.take_take]
    exact List.take_prefix m _
  cases h '\r' (hPrefix.subset (List.mem_of_getLast? hLast))

/-! ## Scans of string literals -/

def LiteralEnd.length : LiteralEnd → Nat
  | closed length => length
  | fault _ length _ => length

def LiteralEnd.lead : LiteralEnd → Nat
  | closed _ => 0
  | fault lead _ _ => lead

theorem oneLine_take_unicodeDigits {u cs : List Char} (h : u <+: cs) :
    OneLine (cs.take (unicodeDigits u).length) := by
  have hPrefix : unicodeDigits u <+: cs :=
    (List.takeWhile_prefix _).trans ((List.take_prefix 4 u).trans h)
  rw [← List.prefix_iff_eq_take.mp hPrefix]
  exact oneLine_unicodeDigits u

theorem oneLine_of_namedEscape {c : Char} (h : (namedEscape? c).isSome = true) : OneLine ['\\', c] :=
  .cons (by decide) (.cons (isLineTerminator_of_class (p := fun c => (namedEscape? c).isSome) rfl rfl h) .nil)

theorem isSome_hexValue_of_mem {cs : List Char} {c : Char} (hc : c ∈ cs) {n : Option Nat}
    (h : (cs.foldl (fun n c => n.bind fun n => (hexValue? c).map (16 * n + ·)) n).isSome = true) :
    (hexValue? c).isSome = true := by
  have hNone : ∀ cs : List Char,
      cs.foldl (fun n c => n.bind fun n => (hexValue? c).map (16 * n + ·)) none = none := by
    intro cs
    induction cs with
    | nil => rfl
    | cons _ _ ih => exact ih
  induction cs generalizing n with
  | nil => cases hc
  | cons d cs ih =>
    rcases List.mem_cons.mp hc with rfl | hc
    · cases hValue : hexValue? c with
      | some v => rfl
      | none =>
        cases n <;> simp [hValue, hNone] at h
    · exact ih hc h

theorem oneLine_of_escapedScalar {a b c d : Char} (h : (escapedScalar? a b c d).isSome = true) :
    OneLine [a, b, c, d] := by
  have hNumber : (hexNumber? [a, b, c, d]).isSome = true := by
    unfold escapedScalar? at h
    split at h
    · cases h
    · rename_i hNumber
      rw [hNumber]
      rfl
  intro e he
  exact isLineTerminator_of_class (p := fun c => (hexValue? c).isSome) rfl rfl (isSome_hexValue_of_mem he hNumber)

theorem oneLine_unicodePrefix : OneLine ['\\', 'u'] :=
  .cons (by decide) (.cons (by decide) .nil)

theorem scanQuoted_oneLine {n : Nat} (cs : List Char) :
    ∀ p, OneLine p → p.length = n →
      OneLine ((p ++ cs).take (scanQuoted n cs).length) ∧
        (scanQuoted n cs).lead ≤ (scanQuoted n cs).length := by
  fun_induction scanQuoted n cs with
  | case1 n =>
    rintro p hp rfl
    exact ⟨by rwa [LiteralEnd.length, List.take_left], Nat.zero_le _⟩
  | case2 n rest =>
    rintro p hp rfl
    exact ⟨hp.take_append (.cons (by decide) .nil), Nat.zero_le _⟩
  | case3 n a b c d cs hScalar ih =>
    rintro p hp rfl
    have hEscape : OneLine (['\\', 'u'] ++ [a, b, c, d]) :=
      oneLine_unicodePrefix.append (oneLine_of_escapedScalar hScalar)
    have hTail := ih (p ++ (['\\', 'u'] ++ [a, b, c, d])) (hp.append hEscape) (by simp)
    rwa [List.append_assoc] at hTail
  | case4 n a b c d cs hScalar digits =>
    rintro p hp rfl
    have hPrefix : OneLine ((a :: b :: c :: d :: cs).take digits.length) :=
      oneLine_take_unicodeDigits ⟨cs, rfl⟩
    have hLetters : OneLine (p ++ ['\\', 'u']) := hp.append oneLine_unicodePrefix
    have hAll := hLetters.take_append hPrefix
    rw [List.append_assoc, List.length_append] at hAll
    exact ⟨hAll, by simp [LiteralEnd.lead, LiteralEnd.length]; omega⟩
  | case5 n cs hLong =>
    rintro p hp rfl
    have hLetters : OneLine (p ++ ['\\', 'u']) := hp.append oneLine_unicodePrefix
    have hAll := hLetters.take_append (oneLine_take_unicodeDigits (List.prefix_refl cs))
    rw [List.append_assoc, List.length_append] at hAll
    exact ⟨hAll, by simp [LiteralEnd.lead, LiteralEnd.length]; omega⟩
  | case6 n c cs hLong hShort hNamed ih =>
    rintro p hp rfl
    have hTail := ih (p ++ ['\\', c]) (hp.append (oneLine_of_namedEscape hNamed)) (by simp)
    rwa [List.append_assoc] at hTail
  | case7 n c cs =>
    rintro p hp rfl
    exact ⟨hp.take_append (.cons (by decide) .nil), by simp [LiteralEnd.lead, LiteralEnd.length]⟩
  | case8 n c cs hLong hShort hNamed hLine =>
    rintro p hp rfl
    have hEscape : OneLine (('\\' :: c :: cs).take 2) := .cons (by decide) (.cons (by simpa using hLine) .nil)
    exact ⟨hp.take_append hEscape, by simp [LiteralEnd.lead, LiteralEnd.length]⟩
  | case9 n =>
    rintro p hp rfl
    exact ⟨hp.take_append (.cons (by decide) .nil), by simp [LiteralEnd.lead, LiteralEnd.length]⟩
  | case10 n c cs =>
    rintro p hp rfl
    exact ⟨by rwa [LiteralEnd.length, List.take_left], Nat.zero_le _⟩
  | case11 n c cs hQuote hLong hShort hEscape hLone hLine hPlain ih =>
    rintro p hp rfl
    have hTail := ih (p ++ [c]) (hp.append (.cons (by simpa using hLine) .nil)) (by simp)
    rwa [List.append_assoc] at hTail
  | case12 n c cs hQuote hLong hShort hEscape hLone hLine hPlain =>
    rintro p hp rfl
    have hLast : OneLine ((c :: cs).take 1) := .cons (by simpa using hLine) .nil
    exact ⟨hp.take_append hLast, by simp [LiteralEnd.lead, LiteralEnd.length]⟩

/-- A block string may hold line terminators, but its scan stops at none of them. -/
theorem scanBlock_cleanCut {n : Nat} (cs : List Char) :
    ∀ p, p.length = n →
      CleanCut (p ++ cs) (scanBlock n cs).length ∧
        ((scanBlock n cs).lead = 0 ∨ CleanCut (p ++ cs) (scanBlock n cs).lead) := by
  fun_induction scanBlock n cs with
  | case1 n =>
    rintro p rfl
    refine ⟨?_, .inl rfl⟩
    rintro ⟨-, hFeed⟩
    simp [LiteralEnd.length] at hFeed
  | case2 n rest =>
    rintro p rfl
    refine ⟨?_, .inl rfl⟩
    rintro ⟨hReturn, -⟩
    rw [LiteralEnd.length, List.take_length_add_append] at hReturn
    simp at hReturn
  | case3 n cs ih =>
    rintro p rfl
    have hTail := ih (p ++ '\\' :: tripleQuote) (by simp [tripleQuote])
    rwa [List.append_assoc] at hTail
  | case4 n c cs hClose hEscape hBlock ih =>
    rintro p rfl
    have hTail := ih (p ++ [c]) (by simp)
    rwa [List.append_assoc] at hTail
  | case5 n c cs hClose hEscape hBlock =>
    rintro p rfl
    refine ⟨?_, .inr ?_⟩
    · rintro ⟨hReturn, -⟩
      rw [LiteralEnd.length, List.take_length_add_append] at hReturn
      simp at hReturn
      subst hReturn
      exact hBlock rfl
    · rintro ⟨-, hFeed⟩
      simp [LiteralEnd.lead] at hFeed
      subst hFeed
      exact hBlock rfl

/-! ## Scans of tokens -/

/-- Neither where the token ends nor where its fault starts, unless that is the start of the token. -/
def Scan.CutsCleanly (text : List Char) (s : Scan) : Prop :=
  CleanCut text (s.extra + 1) ∧ (s.lead = 0 ∨ CleanCut text s.lead)

theorem OneLine.scan {text : List Char} {s : Scan} (h : OneLine (text.take (s.extra + 1)))
    (hLead : s.lead ≤ s.extra + 1) : s.CutsCleanly text :=
  ⟨h.cleanCut (Nat.le_refl _), .inr (h.cleanCut hLead)⟩

theorem scanString_cutsCleanly (cs : List Char) : (scanString cs).CutsCleanly ('"' :: cs) := by
  have hEnd : CleanCut ('"' :: cs) (literalEnd cs).length ∧
      ((literalEnd cs).lead = 0 ∨ CleanCut ('"' :: cs) (literalEnd cs).lead) := by
    unfold literalEnd
    split
    · exact scanBlock_cleanCut _ tripleQuote rfl
    · obtain ⟨hStop, hLead⟩ := scanQuoted_oneLine cs ['"'] (.cons (by decide) .nil) rfl
      exact ⟨hStop.cleanCut (Nat.le_refl _), .inr (hStop.cleanCut hLead)⟩
  have hStop : ∀ length, CleanCut ('"' :: cs) length → CleanCut ('"' :: cs) (length - 1 + 1) := by
    intro length hLength
    cases length with
    | zero => exact OneLine.cleanCut (n := 1) (.cons (by decide) .nil) (Nat.le_refl _)
    | succ length => exact hLength
  rw [scanString]
  cases hCase : literalEnd cs with
  | closed length =>
    rw [hCase] at hEnd
    exact ⟨hStop _ hEnd.1, .inl rfl⟩
  | fault lead length fault =>
    rw [hCase] at hEnd
    exact ⟨hStop _ hEnd.1, hEnd.2⟩

theorem oneLine_take_blankRun (cs : List Char) : OneLine (cs.take (blankRun cs)) := by
  rw [blankRun, take_length_takeWhile]
  exact oneLine_takeWhile (by decide) (by decide) cs

theorem OneLine.past_dot {cs rest : List Char} {n m : Nat} (hn : OneLine (cs.take n))
    (hDot : cs.drop n = '.' :: rest) (hm : OneLine (rest.take m)) : OneLine (cs.take (n + (m + 1))) := by
  rw [List.take_add, hDot, List.take_succ_cons]
  exact hn.append (.cons (by decide) hm)

theorem scanDots_oneLine (cs : List Char) :
    OneLine (cs.take (scanDots cs).extra) ∧ (scanDots cs).lead = 0 := by
  have hFirst := oneLine_take_blankRun cs
  rw [scanDots]
  generalize blankRun cs = firstGap at hFirst ⊢
  dsimp only
  split
  · rename_i rest hRest
    have hLast := oneLine_take_blankRun rest
    generalize blankRun rest = lastGap at hLast ⊢
    split
    · rename_i last hDots
      refine ⟨?_, by split <;> rfl⟩
      have hRest' : OneLine (rest.take (lastGap + (0 + 1))) :=
        hLast.past_dot hDots .nil
      exact hFirst.past_dot hRest hRest'
    · refine ⟨?_, rfl⟩
      have hTwo := hFirst.past_dot hRest hLast
      rwa [Nat.add_comm lastGap, ← Nat.add_assoc] at hTwo
  · exact ⟨hFirst, rfl⟩

theorem scanToken_cutsCleanly {c : Char} (hc : isLineTerminator c = false) (cs : List Char) :
    (scanToken c cs).CutsCleanly (c :: cs) := by
  have hOne : OneLine ((c :: cs).take 1) := .cons hc .nil
  unfold scanToken
  split
  · exact hOne.scan (Nat.zero_le _)
  · split
    · obtain ⟨hDots, hLead⟩ := scanDots_oneLine cs
      exact OneLine.scan (.cons hc hDots) (by omega)
    · split
      · rename_i hQuote
        subst hQuote
        exact scanString_cutsCleanly cs
      · split
        · exact (scanName_oneLine hc cs).scan (Nat.zero_le _)
        · split
          · exact (scanNumberToken_oneLine hc cs).scan (by rw [scanNumberToken_lead]; exact Nat.zero_le _)
          · exact hOne.scan (Nat.zero_le _)

/-! ## Tokens -/

theorem LexFault.note_span {fault : LexFault} {start : Position} {note : Note} {s : Span}
    (hNote : note ∈ fault.notes start) (hSpan : note.span = some s) : s = .emptyAt start := by
  have hNoSpan : ∀ {text : String}, note ∉ [Note.help text] := by
    intro text hMem
    cases List.mem_singleton.mp hMem
    cases hSpan
  cases fault with
  | oneDot => cases hNote
  | loneMinus => cases hNote
  | twoDots apart => cases apart <;> exact absurd hNote hNoSpan
  | threeDots => exact absurd hNote hNoSpan
  | unexpectedCharacter c =>
    rw [notes] at hNote
    split at hNote
    · exact absurd hNote hNoSpan
    · cases hNote
  | badEscape c =>
    cases c with
    | none =>
      cases List.mem_singleton.mp hNote
      cases hSpan
    | some c => exact absurd hNote hNoSpan
  | badUnicodeEscape => exact absurd hNote hNoSpan
  | newlineInString =>
    rcases List.mem_cons.mp hNote with rfl | hNote
    · cases hSpan
    · exact absurd hNote hNoSpan
  | unterminatedString =>
    rcases List.mem_cons.mp hNote with rfl | hNote
    · cases hSpan
      rfl
    · exact absurd hNote hNoSpan
  | unterminatedBlock =>
    rcases List.mem_cons.mp hNote with rfl | hNote
    · cases hSpan
      rfl
    · exact absurd hNote hNoSpan
  | leadingZero =>
    cases List.mem_singleton.mp hNote
    cases hSpan
  | missingExponentDigits =>
    cases List.mem_singleton.mp hNote
    cases hSpan
  | badStringCharacter =>
    cases List.mem_singleton.mp hNote
    cases hSpan
  | badBlockCharacter =>
    cases List.mem_singleton.mp hNote
    cases hSpan

theorem Position.isIn_after {before after : List Char} (h : ¬ CutsPair before after) :
    (Mark.start.advance before).position.IsIn (before ++ after) :=
  ⟨before, after, rfl, h, Mark.position_start before⟩

/-- A place inside what follows, if no pair is cut there and none at the front of what follows. -/
theorem Position.isIn_advance {before cs : List Char} {n : Nat} (hFront : cs.head? ≠ some '\n')
    (hCut : n = 0 ∨ CleanCut cs n) :
    ((Mark.start.advance before).advance (cs.take n)).position.IsIn (before ++ cs) := by
  rw [← Mark.advance_append]
  refine ⟨before ++ cs.take n, cs.drop n, ?_, ?_, Mark.position_start _⟩
  · rw [List.append_assoc, List.take_append_drop]
  · rintro ⟨hReturn, hFeed⟩
    by_cases hTake : cs.take n = []
    · -- Then all of the text follows, or nothing does.
      rcases List.take_eq_nil_iff.mp hTake with rfl | rfl
      · exact hFront hFeed
      · cases n <;> cases hFeed
    · have hLast := List.getLast?_eq_some_getLast hTake
      rw [List.getLast?_append, hLast, Option.some_or, ← hLast] at hReturn
      rcases hCut with rfl | hCut
      · exact hTake rfl
      · exact hCut ⟨hReturn, hFeed⟩

/-- The ends of a token and of the spans of its notes. -/
def Token.PlacesIn (source : List Char) (t : Token) : Prop :=
  t.span.IsIn source ∧ ∀ note ∈ t.kind.notes, ∀ s, note.span = some s → s.IsIn source

theorem Token.ofScan_placesIn {c : Char} (hc : isLineTerminator c = false) (before cs : List Char) :
    (Token.ofScan file (Mark.start.advance before) (c :: cs) (scanToken c cs)).PlacesIn
      (before ++ c :: cs) := by
  have hFront : (c :: cs).head? ≠ some '\n' := by
    rintro hFeed
    cases hFeed
    cases hc
  obtain ⟨hStop, hLead⟩ := scanToken_cutsCleanly hc cs
  have hStart : (Mark.start.advance before).position.IsIn (before ++ c :: cs) :=
    Position.isIn_advance (n := 0) hFront (.inl rfl)
  have hEnd : Position.IsIn (before ++ c :: cs) _ := Position.isIn_advance hFront (.inr hStop)
  cases hScan : scanToken c cs with
  | mk extra outcome =>
    rw [hScan] at hLead hEnd
    cases outcome with
    | token kind =>
      have hNotes : kind.notes = [] := by
        obtain ⟨hWell, -⟩ := scanToken_sound hScan
        cases kind with
        | error => cases hWell
        | _ => rfl
      refine ⟨⟨hStart, hEnd⟩, ?_⟩
      intro note hNote
      rw [Token.ofScan, hNotes] at hNote
      cases hNote
    | fault lead fault =>
      refine ⟨⟨Position.isIn_advance hFront hLead, hEnd⟩, ?_⟩
      intro note hNote span hSpan
      cases LexFault.note_span hNote hSpan
      exact ⟨hStart, hStart⟩

theorem lexFrom_placesIn (m : Mark) (cs : List Char) :
    ∀ before, m = Mark.start.advance before →
      ∀ t ∈ lexFrom file m cs, t.PlacesIn (before ++ cs) := by
  induction m, cs using lexFrom_induction file with
  | done m =>
    rintro before rfl t ht
    cases List.mem_singleton.mp ht
    have hEnd : (Mark.start.advance before).position.IsIn (before ++ []) :=
      Position.isIn_after fun hCut => nomatch hCut.2
    exact ⟨⟨hEnd, hEnd⟩, fun note hNote => by cases hNote⟩
  | ignored m c cs ts _ ih =>
    rintro before rfl
    have hRest := ih (before ++ [c]) (Mark.advance_append _ _ [c]).symm
    rwa [List.append_assoc] at hRest
  | comment m body cs ts _ _ ih =>
    rintro before rfl
    have hRest := ih (before ++ '#' :: body) (Mark.advance_append _ _ _).symm
    rwa [List.append_assoc] at hRest
  | token m c cs ts hIgnored hSharp ih =>
    rintro before rfl t ht
    rcases List.mem_cons.mp ht with rfl | ht
    · exact Token.ofScan_placesIn (isLineTerminator_of_not_ignored hIgnored) before cs
    · have hRest := ih (before ++ (c :: cs).take _) (Mark.advance_append _ _ _).symm t ht
      rwa [List.append_assoc, List.take_append_drop] at hRest

/-- Both ends of every token and of every span in the notes of an error are positions of the text. -/
theorem lex_positions (file : Option Path) (source : String) :
    ∀ t ∈ lex file source, t.span.IsIn source.toList ∧
      ∀ note ∈ t.kind.notes, ∀ s, note.span = some s → s.IsIn source.toList :=
  lexFrom_placesIn .start source.toList [] rfl

/-- An unterminated string after a carriage return and a line feed, which count as one. -/
theorem lex_positions_unterminated :
    ∃ t ∈ lex none "\r\n\"a", t.kind.isError = true ∧ t.span.start = ⟨1, 0, some 0, 2⟩ ∧
      t.span.IsIn "\r\n\"a".toList ∧
      ∀ note ∈ t.kind.notes, ∀ s, note.span = some s → s.IsIn "\r\n\"a".toList := by
  have hHead : ∃ t ∈ lex none "\r\n\"a", t.kind.isError = true ∧ t.span.start = ⟨1, 0, some 0, 2⟩ := by
    decide
  obtain ⟨t, ht, hError, hStart⟩ := hHead
  obtain ⟨hSpan, hNotes⟩ := lex_positions none "\r\n\"a" t ht
  exact ⟨t, ht, hError, hStart, hSpan, hNotes⟩

end GraphQLSyntax
