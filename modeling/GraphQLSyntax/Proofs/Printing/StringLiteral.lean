import GraphQLSyntax.Node.Printer
import GraphQLSyntax.Proofs.Lexing.Lossless
import GraphQLSyntax.Proofs.StringLiteral.Escape

/-!
# Printed strings as tokens

The literal that is printed for a string always stands for it. A text admits fewer characters than a string may have, so
the literal is a token just if all characters are in the basic plane, and else the first other one is a fault.
-/

set_option autoImplicit false

namespace GraphQLSyntax

/-! ## The basic plane -/

theorem StringText.encodeQuoted {value : List Char} (h : BasicPlane value) : StringText (encodeQuoted value) :=
  .quoted (quotedTail_encode h)

theorem Mark.advance_encodeQuoted_offset (value : List Char) :
    (Mark.start.advance (encodeQuoted value)).offset = byteLength (encodeQuoted value) := by
  rw [Mark.advance_offset]
  exact Nat.zero_add _

theorem lex_encodeQuoted (file : Option Path) {value : List Char} (h : BasicPlane value) :
    let literal := String.ofList (encodeQuoted value)
    let stop := (Mark.start.advance (encodeQuoted value)).position
    lex file literal = [⟨.string literal, ⟨.origin, stop, file⟩⟩, ⟨.endOfInput, ⟨stop, stop, file⟩⟩] := by
  intro literal stop
  have hSpelling : (TokenKind.string literal).spelling = encodeQuoted value := String.toList_ofList
  have hWell : (TokenKind.string literal).WellFormed := by
    rw [TokenKind.WellFormed, String.toList_ofList]
    exact .encodeQuoted h
  have hEnds : (TokenKind.string literal).EndsBefore [] := by simp [TokenKind.EndsBefore]
  have hLex := @lexFrom_spelling file .start _ _ hWell (hEnds.standsBefore hWell)
  rw [List.append_nil, hSpelling] at hLex
  rw [lex_eq_lexFrom, String.toList_ofList, hLex]
  rfl

/-! ## Other characters -/

/-- What is written for characters of the basic plane is passed over in a quoted literal. -/
theorem scanQuoted_encode {value : List Char} (h : BasicPlane value) (rest : List Char) (n : Nat) :
    scanQuoted n (value.flatMap encodeChar ++ rest) = scanQuoted (n + (value.flatMap encodeChar).length) rest := by
  induction value generalizing n with
  | nil => rfl
  | cons c cs ih =>
    have hTail := ih fun d hd => h d (List.mem_cons_of_mem c hd)
    have hHead : ∀ more, scanQuoted n (encodeChar c ++ more) = scanQuoted (n + (encodeChar c).length) more := by
      intro more
      have hEncodes := encodes_encodeChar (h c List.mem_cons_self)
      generalize encodeChar c = written at hEncodes
      cases hEncodes with
      | plain hQuote hBackslash hPlain => exact scanQuoted_plain hQuote hBackslash hPlain n more
      | named hNamed => exact scanQuoted_named (by rw [hNamed]; rfl) n more
      | codePoint hScalar => exact scanQuoted_codePoint (by rw [hScalar]; rfl) n more
    rw [List.flatMap_cons, List.append_assoc, hHead, hTail, List.length_append, Nat.add_assoc]

theorem scanQuoted_supplementary {c : Char} (h : 0xFFFF < c.toNat) (n : Nat) (cs : List Char) :
    scanQuoted n (c :: cs) = .fault n (n + 1) (.badStringCharacter c) := by
  have hOther : ∀ d : Char, d.toNat ≤ 0xFFFF → c ≠ d := by
    rintro d hd rfl
    omega
  have hLine : isLineTerminator c = false := by
    simp [isLineTerminator, hOther '\n' (by decide), hOther '\r' (by decide)]
  have hPlain : ¬ isStringCharacter c = true := by
    simp only [isStringCharacter, Bool.and_eq_true, decide_eq_true_eq]
    omega
  have hQuote := hOther '"' (by decide)
  have hBackslash := hOther '\\' (by decide)
  rw [scanQuoted]
  · rw [hLine, if_neg hPlain]
    rfl
  all_goals simp_all

/-- The first character that is not in the basic plane, with what stands around it. -/
theorem exists_supplementary {value : List Char} (h : ¬ BasicPlane value) :
    ∃ before c after, value = before ++ c :: after ∧ BasicPlane before ∧ 0xFFFF < c.toNat := by
  induction value with
  | nil => exact absurd (List.forall_mem_nil _) h
  | cons d ds ih =>
    by_cases hd : d.toNat ≤ 0xFFFF
    · obtain ⟨before, c, after, rfl, hBefore, hc⟩ := ih fun hds => h (.cons hd hds)
      exact ⟨d :: before, c, after, rfl, .cons hd hBefore, hc⟩
    · exact ⟨[], d, ds, rfl, List.forall_mem_nil _, by omega⟩

theorem encodeChar_head (c : Char) : ∃ d ds, encodeChar c = d :: ds ∧ d ≠ '"' := by
  unfold encodeChar
  split
  case h_8 hQuote _ _ _ _ _ _ =>
    split
    · exact ⟨'\\', _, rfl, by decide⟩
    · exact ⟨c, [], rfl, hQuote⟩
  all_goals exact ⟨'\\', _, rfl, by decide⟩

/-- A literal that is not empty starts with no second quote, so it is scanned as a quoted one. -/
theorem literalEnd_encode {value : List Char} (h : value ≠ []) (rest : List Char) :
    literalEnd (value.flatMap encodeChar ++ rest) = scanQuoted 1 (value.flatMap encodeChar ++ rest) := by
  obtain ⟨c, cs, rfl⟩ := List.exists_cons_of_ne_nil h
  obtain ⟨d, ds, hWritten, hQuote⟩ := encodeChar_head c
  rw [List.flatMap_cons, hWritten, List.cons_append, List.cons_append, literalEnd]
  rintro more hMore
  exact hQuote (List.cons.inj hMore).1

/-- The first character that a literal cannot hold is the first fault of the text. -/
theorem lex_encodeQuoted_supplementary (file : Option Path) {value : List Char} (h : ¬ BasicPlane value) :
    ∃ c ∈ value, 0xFFFF < c.toNat ∧ ∃ notes span more, lex file (String.ofList (encodeQuoted value)) =
      ⟨.error (LexFault.badStringCharacter c).message notes, span⟩ :: more := by
  obtain ⟨before, c, after, rfl, hBefore, hc⟩ := exists_supplementary h
  refine ⟨c, by simp, hc, ?_⟩
  have hContent : (before ++ c :: after).flatMap encodeChar ++ ['"'] =
      before.flatMap encodeChar ++ c :: (after.flatMap encodeChar ++ ['"']) := by
    rw [List.flatMap_append, List.flatMap_cons, encodeChar_supplementary hc]
    simp
  have hEnd := literalEnd_encode (List.append_ne_nil_of_right_ne_nil before (List.cons_ne_nil c after)) ['"']
  rw [hContent, scanQuoted_encode hBefore, scanQuoted_supplementary hc] at hEnd
  have hText : encodeQuoted (before ++ c :: after) =
      '"' :: (before.flatMap encodeChar ++ c :: (after.flatMap encodeChar ++ ['"'])) := by
    rw [← hContent]
    rfl
  rw [lex_eq_lexFrom, String.toList_ofList, hText, lexFrom_token .start (by decide) (by decide), scanToken_quote]
  simp only [scanString, hEnd, Token.ofScan]
  exact ⟨_, _, _, rfl⟩

/-- The literal that is printed for a string stands for it. As a text it is one token, and nothing else, if all characters
are in the basic plane, and starts with a fault if one is not. -/
theorem lex_print_string (file : Option Path) (s : StringValue) :
    decodeQuoted s.print = .ok s.value.toList ∧
    ((∀ c ∈ s.value.toList, c.toNat ≤ 0xFFFF) → ∃ stop, stop.offset = byteLength s.print ∧
      lex file (String.ofList s.print) =
        [⟨.string (String.ofList s.print), ⟨.origin, stop, file⟩⟩, ⟨.endOfInput, ⟨stop, stop, file⟩⟩]) ∧
    ((∃ c ∈ s.value.toList, 0xFFFF < c.toNat) → ∃ message notes span more,
      lex file (String.ofList s.print) = ⟨.error message notes, span⟩ :: more) := by
  refine ⟨decodeQuoted_encodeQuoted _, fun hBasic => ?_, fun ⟨c, hMem, hc⟩ => ?_⟩
  · exact ⟨_, Mark.advance_encodeQuoted_offset _, lex_encodeQuoted file hBasic⟩
  · have hOther : ¬ BasicPlane s.value.toList := fun hBasic => absurd (hBasic c hMem) (by omega)
    obtain ⟨d, -, -, notes, span, more, hLex⟩ := lex_encodeQuoted_supplementary file hOther
    exact ⟨_, notes, span, more, hLex⟩

/-- A string that ends with what starts an escape, and one with a character of another plane. -/
theorem lex_print_string_escaped :
    let basic : StringValue := ⟨"\ufeff\\u0041\"\\", false, .emptyAt .origin⟩
    let other : StringValue := ⟨"a😀", true, .emptyAt .origin⟩
    decodeQuoted basic.print = .ok basic.value.toList ∧
    (∃ stop, stop.offset = byteLength basic.print ∧ lex none (String.ofList basic.print) =
      [⟨.string (String.ofList basic.print), ⟨.origin, stop, none⟩⟩, ⟨.endOfInput, ⟨stop, stop, none⟩⟩]) ∧
    decodeQuoted other.print = .ok other.value.toList ∧
    ∃ message notes span more, lex none (String.ofList other.print) = ⟨.error message notes, span⟩ :: more := by
  intro basic other
  obtain ⟨hReads, hToken, -⟩ := lex_print_string none basic
  obtain ⟨hReads', -, hFault⟩ := lex_print_string none other
  have hText : basic.value.toList = ['\ufeff', '\\', 'u', '0', '0', '4', '1', '"', '\\'] := by decide +kernel
  have hBasic : ∀ c ∈ basic.value.toList, c.toNat ≤ 0xFFFF := by simp [hText]
  have hOther : ∃ c ∈ other.value.toList, 0xFFFF < c.toNat := ⟨'😀', by decide +kernel, by decide⟩
  exact ⟨hReads, hToken hBasic, hReads', hFault hOther⟩

end GraphQLSyntax
