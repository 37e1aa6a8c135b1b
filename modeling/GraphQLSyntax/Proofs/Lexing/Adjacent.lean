import GraphQLSyntax.Proofs.Lexing.Spelling

/-!
# Tokens and what stands next to them

Where a token ends is decided by the character after it, and where that is a dot by one more. So a scan finds the same
token when the rest of the text is exchanged for another one that starts alike.
-/

set_option autoImplicit false

namespace GraphQLSyntax

/-- The same character comes first, and if it is a dot the same one comes second. -/
structure StartsAlike (rest rest' : List Char) : Prop where
  first : rest.head? = rest'.head?
  second : rest.head? = some '.' → rest.tail.head? = rest'.tail.head?

variable {rest rest' : List Char}

theorem StartsAlike.append {text : List Char} (h : StartsAlike rest rest') :
    StartsAlike (text ++ rest) (text ++ rest') := by
  cases text with
  | nil => exact h
  | cons c text =>
    constructor
    · rfl
    · intro _
      cases text with
      | nil => exact h.first
      | cons => rfl

theorem startsAlike_append_cons (c d : Char) (text more more' : List Char) :
    StartsAlike (c :: d :: text ++ more) (c :: d :: text ++ more') := ⟨rfl, fun _ => rfl⟩

theorem startsAlike_cons {c : Char} (hDot : c ≠ '.') (more more' : List Char) :
    StartsAlike (c :: more) (c :: more') where
  first := rfl
  second hFirst := absurd (Option.some.inj hFirst) hDot

theorem StartsAlike.stopsAt {p : Char → Bool} (h : StartsAlike rest rest') (hStops : StopsAt p rest) :
    StopsAt p rest' := by
  intro c hc
  rw [← h.first] at hc
  exact hStops c hc

/-! ## Numbers -/

theorem digitRun_cons {c : Char} (h : c.isDigit = true) (cs : List Char) :
    digitRun (c :: cs) = digitRun cs + 1 := by
  rw [digitRun, List.takeWhile_cons_of_pos h, List.length_cons, digitRun]

theorem digitRun_cons_zero {c : Char} (h : c.isDigit = false) (cs : List Char) : digitRun (c :: cs) = 0 := by
  rw [digitRun, List.takeWhile_cons_of_neg (by simp [h]), List.length_nil]

/-- Digits that end where a text does end there when the rest starts with the same character. -/
theorem digitRun_alike (text : List Char) (h : digitRun (text ++ rest) = text.length)
    (hFirst : rest.head? = rest'.head?) : digitRun (text ++ rest') = text.length := by
  induction text with
  | nil =>
    rw [List.nil_append] at *
    cases rest with
    | nil =>
      cases rest' with
      | nil => rfl
      | cons => cases hFirst
    | cons c rest =>
      cases rest' with
      | nil => cases hFirst
      | cons d rest' =>
        cases hFirst
        cases hDigit : c.isDigit with
        | false => exact digitRun_cons_zero hDigit rest'
        | true =>
          rw [digitRun_cons hDigit] at h
          cases h
  | cons c text ih =>
    rw [List.cons_append] at *
    cases hDigit : c.isDigit with
    | false =>
      rw [digitRun_cons_zero hDigit] at h
      cases h
    | true =>
      rw [digitRun_cons hDigit, List.length_cons, Nat.add_right_cancel_iff] at *
      exact ih h

/-- Digits that end within a text end there in the other one too. -/
theorem exists_digits (text : List Char) (h : digitRun (text ++ rest) ≤ text.length)
    (hFirst : rest.head? = rest'.head?) :
    ∃ digits more, text = digits ++ more ∧ digitRun (digits ++ (more ++ rest)) = digits.length ∧
      digitRun (digits ++ (more ++ rest')) = digits.length := by
  have hSplit := List.take_append_drop (digitRun (text ++ rest)) text
  have hRun : digitRun (text.take (digitRun (text ++ rest)) ++ (text.drop (digitRun (text ++ rest)) ++ rest)) =
      (text.take (digitRun (text ++ rest))).length := by
    rw [← List.append_assoc, hSplit, List.length_take]
    omega
  have hHead : (text.drop (digitRun (text ++ rest)) ++ rest).head? =
      (text.drop (digitRun (text ++ rest)) ++ rest').head? := by
    rw [List.head?_append, hFirst, List.head?_append]
  exact ⟨_, _, hSplit.symm, hRun, digitRun_alike _ hRun hHead⟩

theorem scanExponent_length_le {kind k : NumberKind} {length n : Nat} {cs : List Char}
    (h : scanExponent kind length cs = .literal k n) : length ≤ n := by
  obtain ⟨x, _, _, rfl, _⟩ := scanExponent_sound h
  exact Nat.le_add_right length x.length

/-- What the scan of an exponent does once it has passed over the sign. -/
theorem scanExponent_signed {e : Char} {sign cs : List Char} (hLetter : e = 'e' ∨ e = 'E')
    (hSign : sign.length = if (sign ++ cs).head? = some '+' ∨ (sign ++ cs).head? = some '-' then 1 else 0)
    (kind : NumberKind) (length : Nat) :
    scanExponent kind length (e :: (sign ++ cs)) =
      if digitRun cs = 0 then .fault .missingExponentDigits (length + 1 + sign.length)
      else .literal .float (length + 1 + sign.length + digitRun cs) := by
  rw [scanExponent, if_pos hLetter, ← hSign]
  dsimp only
  rw [List.drop_left]

theorem exists_exponentSign (c : Char) (text : List Char) :
    ∃ sign digits, c :: text = sign ++ digits ∧ ∀ more : List Char,
      sign.length = if (sign ++ (digits ++ more)).head? = some '+' ∨
        (sign ++ (digits ++ more)).head? = some '-' then 1 else 0 := by
  by_cases hc : c = '+' ∨ c = '-'
  · exact ⟨[c], text, rfl, fun more => by simp [hc]⟩
  · exact ⟨[], c :: text, rfl, fun more => by simp [hc]⟩

/-- The letter of an exponent and a digit at least belong to it. -/
theorem scanExponent_letter {kind k : NumberKind} {length n : Nat} {e : Char} {cs : List Char}
    (hLetter : e = 'e' ∨ e = 'E') (h : scanExponent kind length (e :: cs) = .literal k n) :
    length + 2 ≤ n := by
  have hDigits : ∀ sign digits : List Char,
      scanExponent kind length (e :: cs) = (if digitRun digits = 0 then
        .fault .missingExponentDigits (length + 1 + sign.length)
        else .literal .float (length + 1 + sign.length + digitRun digits)) → length + 2 ≤ n := by
    intro sign digits hScan
    rw [h] at hScan
    split at hScan
    · cases hScan
    · cases hScan
      omega
  cases cs with
  | nil => exact hDigits [] [] (@scanExponent_signed _ [] [] hLetter (by simp) kind length)
  | cons c text =>
    obtain ⟨sign, digits, hText, hSign⟩ := exists_exponentSign c text
    have hScan := scanExponent_signed hLetter (hSign []) kind length
    rw [List.append_nil, ← hText] at hScan
    exact hDigits sign digits hScan

theorem scanExponent_alike {kind k : NumberKind} {length : Nat} (text : List Char)
    (h : scanExponent kind length (text ++ rest) = .literal k (length + text.length))
    (hFirst : rest.head? = rest'.head?) :
    scanExponent kind length (text ++ rest') = .literal k (length + text.length) := by
  cases text with
  | nil =>
    rw [List.nil_append] at *
    cases rest with
    | nil =>
      cases rest' with
      | nil => exact h
      | cons => cases hFirst
    | cons e rest =>
      cases rest' with
      | nil => cases hFirst
      | cons d rest' =>
        cases hFirst
        have hLetter : ¬ (e = 'e' ∨ e = 'E') := by
          intro hLetter
          have hLength := scanExponent_letter hLetter h
          rw [List.length_nil] at hLength
          omega
        rw [scanExponent, if_neg hLetter] at *
        exact h
  | cons e text =>
    rw [List.cons_append] at *
    have hLetter : e = 'e' ∨ e = 'E' := by
      apply Decidable.of_not_not
      intro hOther
      rw [scanExponent, if_neg hOther, NumberScan.literal.injEq, List.length_cons] at h
      omega
    cases text with
    | nil =>
      have hLength := scanExponent_letter hLetter h
      rw [List.length_singleton] at hLength
      omega
    | cons c text =>
      obtain ⟨sign, digits, hText, hSign⟩ := exists_exponentSign c text
      rw [hText, List.append_assoc] at h ⊢
      rw [scanExponent_signed hLetter (hSign rest)] at h
      rw [scanExponent_signed hLetter (hSign rest')]
      split at h
      · cases h
      · rw [NumberScan.literal.injEq, List.length_cons, List.length_append] at h
        have hRun : digitRun (digits ++ rest) = digits.length := by omega
        rw [digitRun_alike _ hRun hFirst, if_neg (by omega), NumberScan.literal.injEq, List.length_cons,
          List.length_append]
        exact ⟨h.1, by omega⟩

theorem scanFraction_alike {k : NumberKind} {length : Nat} {text : List Char}
    (h : scanFraction length (text ++ rest) = .literal k (length + text.length))
    (hAlike : StartsAlike rest rest') :
    scanFraction length (text ++ rest') = .literal k (length + text.length) := by
  cases text with
  | nil =>
    rw [List.nil_append] at *
    cases rest with
    | nil =>
      cases rest' with
      | nil => exact h
      | cons => cases hAlike.first
    | cons c rest =>
      cases rest' with
      | nil => cases hAlike.first
      | cons d rest' =>
        cases hAlike.first
        rw [scanFraction] at *
        have hPoint : c = '.' → digitRun rest = 0 := by
          intro hDot
          apply Decidable.of_not_not
          intro hDigits
          rw [if_pos ⟨hDot, hDigits⟩] at h
          have hLength := scanExponent_length_le h
          rw [List.length_nil] at hLength
          omega
        have hPoint' : c = '.' → digitRun rest' = 0 := by
          rintro rfl
          exact digitRun_alike [] (hPoint rfl) (hAlike.second rfl)
        rw [if_neg fun hc => hc.2 (hPoint hc.1)] at h
        rw [if_neg fun hc => hc.2 (hPoint' hc.1)]
        exact scanExponent_alike [] h hAlike.first
  | cons c text =>
    rw [List.cons_append, scanFraction, List.length_cons] at *
    by_cases hPoint : c = '.' ∧ digitRun (text ++ rest) ≠ 0
    · rw [if_pos hPoint] at h
      have hLength := scanExponent_length_le h
      obtain ⟨digits, more, rfl, hRun, hRun'⟩ := exists_digits text (by omega) hAlike.first
      have hTotal : length + ((digits ++ more).length + 1) = length + 1 + digits.length + more.length := by
        rw [List.length_append]
        omega
      rw [List.append_assoc, hRun, List.drop_left, hTotal] at h
      rw [List.append_assoc, hRun] at hPoint
      rw [List.append_assoc, hRun', if_pos hPoint, List.drop_left, hTotal]
      exact scanExponent_alike _ h hAlike.first
    · rw [if_neg hPoint] at h
      have hDot : c ≠ '.' := by
        rintro rfl
        rw [scanExponent, if_neg (by decide), NumberScan.literal.injEq] at h
        omega
      rw [if_neg fun hc => hDot hc.1]
      exact scanExponent_alike (c :: text) h hAlike.first

theorem scanFraction_length_le {k : NumberKind} {length n : Nat} {cs : List Char}
    (h : scanFraction length cs = .literal k n) : length ≤ n := by
  obtain ⟨tail, _, _, rfl, _⟩ := scanFraction_sound h
  exact Nat.le_add_right length tail.length

theorem exists_numberSign (c : Char) (text : List Char) :
    ∃ sign digits, c :: text = sign ++ digits ∧ (sign = [] ∨ sign = ['-']) ∧ ∀ more : List Char,
      sign.length = if (sign ++ (digits ++ more)).head? = some '-' then 1 else 0 := by
  by_cases hc : c = '-'
  · exact ⟨[c], text, rfl, .inr (by rw [hc]), fun more => by simp [hc]⟩
  · exact ⟨[], c :: text, rfl, .inl rfl, fun more => by simp [hc]⟩

theorem NumberText.ne_minus {k : NumberKind} : ¬ NumberText k ['-'] := by
  intro h
  obtain ⟨i, tail, hText, hInt, -⟩ := h.split
  cases hInt with
  | plain hPart =>
    cases hPart with
    | zero => cases hText
    | digits hDigit =>
      obtain ⟨rfl, -⟩ := List.cons.inj hText
      cases hDigit
  | negative hPart =>
    obtain ⟨-, hNil⟩ := List.cons.inj hText
    cases hPart <;> cases hNil

theorem scanNumber_alike {k : NumberKind} {c : Char} {text : List Char}
    (h : scanNumber (c :: text ++ rest) = .literal k (c :: text).length) (hAlike : StartsAlike rest rest') :
    scanNumber (c :: text ++ rest') = .literal k (c :: text).length := by
  obtain ⟨sign, body, hText, hSignText, hSign⟩ := exists_numberSign c text
  rw [hText] at h ⊢
  cases body with
  | nil =>
    rw [List.append_nil] at h
    obtain ⟨t, more, hSame, hLength, hNumber⟩ := scanNumber_sound h
    obtain ⟨rfl, -⟩ := List.append_inj hSame hLength
    obtain rfl | rfl := hSignText
    · cases hText
    · exact absurd hNumber NumberText.ne_minus
  | cons d body =>
    have hLength : (sign ++ d :: body).length = sign.length + 1 + body.length := by
      rw [List.length_append, List.length_cons]
      omega
    rw [List.append_assoc, hLength] at h ⊢
    rw [List.cons_append] at h ⊢
    simp only [List.cons_append] at hSign
    rw [scanNumber_signed (hSign rest)] at h
    rw [scanNumber_signed (hSign rest')]
    split at h
    · rename_i hZero
      rw [if_pos hZero]
      split at h
      · rename_i hNone
        have hNone' : digitRun (body ++ rest') = 0 :=
          digitRun_alike [] hNone hAlike.append.first
        rw [if_pos hNone']
        exact scanFraction_alike h hAlike
      · cases h
    · rename_i hZero
      rw [if_neg hZero]
      split at h
      · rename_i hDigit
        have hWithin := scanFraction_length_le h
        obtain ⟨digits, more, rfl, hRun, hRun'⟩ := exists_digits body (by omega) hAlike.first
        have hTotal : sign.length + 1 + (digits ++ more).length =
            sign.length + 1 + digits.length + more.length := by
          rw [List.length_append]
          omega
        rw [List.append_assoc, hRun, List.drop_left, hTotal] at h
        rw [if_pos hDigit, List.append_assoc, hRun', List.drop_left, hTotal]
        exact scanFraction_alike h hAlike
      · cases h

theorem scanNumberToken_alike {k : TokenKind} {c : Char} {text : List Char}
    (h : scanNumberToken (c :: (text ++ rest)) = ⟨text.length, .token k⟩) (hAlike : StartsAlike rest rest') :
    scanNumberToken (c :: (text ++ rest')) = ⟨text.length, .token k⟩ := by
  unfold scanNumberToken at h
  split at h
  · rename_i kind length hScan
    obtain ⟨t, more, -, hLength, hNumber⟩ := scanNumber_sound hScan
    obtain ⟨d, ds, rfl⟩ := hNumber.exists_cons
    have hExtra : length - 1 = text.length := congrArg Scan.extra h
    have hWhole : length = (c :: text).length := by
      rw [List.length_cons] at *
      omega
    have hTake : ∀ more : List Char, (c :: (text ++ more)).take (c :: text).length = c :: text := by simp
    subst hWhole
    have hScan' := scanNumber_alike hScan hAlike
    rw [List.cons_append] at hScan'
    rw [hTake] at h
    rw [scanNumberToken, hScan']
    dsimp only
    rw [hTake]
    exact h
  · split at h
    all_goals
      have hOutcome := congrArg Scan.outcome h
      cases hOutcome

/-! ## Words and strings -/

/-- A word ends where no letter follows it. -/
theorem stopsAt_of_scanName {c : Char} {text : List Char} (hContinue : ∀ d ∈ text, isNameContinue d = true)
    {k : TokenKind} (h : scanName c (text ++ rest) = ⟨text.length, .token k⟩) :
    StopsAt isNameContinue rest := by
  have hLength : ((text ++ rest).takeWhile isNameContinue).length = text.length := congrArg Scan.extra h
  rw [List.takeWhile_append_of_pos hContinue, List.length_append] at hLength
  intro d hd
  cases rest with
  | nil => cases hd
  | cons e rest =>
    cases hd
    cases hLetter : isNameContinue d with
    | false => rfl
    | true =>
      rw [List.takeWhile_cons_of_pos hLetter, List.length_cons] at hLength
      omega

theorem scanBlock_length_ge {n length : Nat} {cs : List Char} (h : scanBlock n cs = .closed length) :
    n + 3 ≤ length := by
  obtain ⟨t, _, _, rfl, hTail⟩ := scanBlock_sound h
  have hLength := hTail.length_ge
  omega

/-- An empty literal with a quote after it would be the start of a block string. -/
theorem ne_quote_of_scanString {k : TokenKind} (h : scanString ('"' :: rest) = ⟨1, .token k⟩) :
    rest.head? ≠ some '"' := by
  intro hQuote
  obtain ⟨more, rfl⟩ := List.head?_eq_some_iff.mp hQuote
  rw [scanString, literalEnd] at h
  split at h
  · rename_i length hClosed
    have hLength := scanBlock_length_ge hClosed
    have hExtra : length - 1 = 1 := congrArg Scan.extra h
    omega
  · have hOutcome := congrArg Scan.outcome h
    cases hOutcome

/-! ## Tokens -/

/-- What starts like the rest of a text does not change the token before it. -/
theorem scanToken_alike {k : TokenKind} {c : Char} {text : List Char} (hWell : k.WellFormed)
    (hText : k.spelling = c :: text) (h : scanToken c (text ++ rest) = ⟨text.length, .token k⟩)
    (hAlike : StartsAlike rest rest') : scanToken c (text ++ rest') = ⟨text.length, .token k⟩ := by
  by_cases hWord : k.isWord = true
  · obtain ⟨hName, hKind⟩ := hWell.word hWord
    rw [hText] at hName hKind
    cases hName with
    | mk hStart hContinue =>
      rw [scanToken_start hStart] at h
      have hStops := hAlike.stopsAt (stopsAt_of_scanName hContinue h)
      rw [NameText.scan (.mk hStart hContinue) hStops, hKind]
  · have hNumber : ∀ kind, NumberText kind (c :: text) →
        scanToken c (text ++ rest') = ⟨text.length, .token k⟩ := by
      intro kind hNumber
      rw [scanToken_number hNumber.head] at h ⊢
      exact scanNumberToken_alike h hAlike
    cases k with
    | punctuator => exact scanToken_append hWell hText trivial
    | int raw => exact hNumber .int (by rwa [← hText])
    | float raw => exact hNumber .float (by rwa [← hText])
    | string raw =>
      have hString : StringText (c :: text) := by rwa [← hText]
      obtain ⟨u, hu⟩ := hString.exists_cons
      cases hu
      rw [hString.scan]
      · rw [← hText, TokenKind.spelling, String.ofList_toList]
      · rintro rfl
        rw [scanToken_quote] at h
        rw [← hAlike.first]
        exact ne_quote_of_scanString h
    | endOfInput | error => cases hWell
    | name | boolean | null => exact absurd rfl hWord

end GraphQLSyntax
