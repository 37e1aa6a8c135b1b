import GraphQLSyntax.Proofs.Lexing.NumberText
import GraphQLSyntax.Proofs.Lexing.StringText

/-!
# How tokens are written

Every token but the end of the input and an error has one spelling. The scan finds a token exactly where
its spelling stands and what follows cannot go on with it.
-/

set_option autoImplicit false

namespace GraphQLSyntax

inductive NameText : List Char → Prop
  | mk {c : Char} {cs : List Char} : isNameStart c = true → (∀ d ∈ cs, isNameContinue d = true) →
      NameText (c :: cs)

namespace TokenKind

def spelling : TokenKind → List Char
  | punctuator p => p.text.toList
  | name text => text.toList
  | int raw => raw.toList
  | float raw => raw.toList
  | string raw => raw.toList
  | boolean value => (booleanWord value).toList
  | null => "null".toList
  | endOfInput => []
  | error _ _ => []

/-- The words that are tokens of their own are no names. -/
def WellFormed : TokenKind → Prop
  | punctuator _ | boolean _ | null => True
  | name text => NameText text.toList ∧ text ≠ "true" ∧ text ≠ "false" ∧ text ≠ "null"
  | int raw => IntText raw.toList
  | float raw => FloatText raw.toList
  | string raw => StringText raw.toList
  | endOfInput | error _ _ => False

/-- Whether a text cannot go on with a token that stands before it. -/
def EndsBefore : TokenKind → List Char → Prop
  | name _, rest | boolean _, rest | null, rest => StopsAt isNameContinue rest
  | int _, rest | float _, rest => EndsNumber rest
  | string _, rest => rest.head? ≠ some '"'
  | punctuator _, _ | endOfInput, _ | error _ _, _ => True

end TokenKind

/-! ## Punctuators -/

theorem Punctuator.ofChar?_eq_some_iff {c : Char} {p : Punctuator} :
    Punctuator.ofChar? c = some p ↔ p.text.toList = [c] := by
  constructor
  · intro h
    simpa using List.find?_some h
  · intro h
    cases p with
    | ellipsis => cases h
    | _ =>
      obtain rfl := (List.cons.inj h).1
      rfl

/-- A character that starts a token of another sort is no punctuator. -/
theorem Punctuator.ofChar?_eq_none {c : Char}
    (h : isNameStart c = true ∨ c = '-' ∨ c.isDigit = true ∨ c = '.' ∨ c = '"') :
    Punctuator.ofChar? c = none := by
  cases hSome : Punctuator.ofChar? c with
  | none => rfl
  | some p =>
    have hText := Punctuator.ofChar?_eq_some_iff.mp hSome
    cases p with
    | ellipsis => cases hText
    | _ =>
      obtain rfl := (List.cons.inj hText).1
      revert h
      decide

/-! ## Words -/

theorem TokenKind.ofWord_sound {c : Char} {cs : List Char} (hStart : isNameStart c = true)
    (hRest : ∀ d ∈ cs, isNameContinue d = true) :
    (TokenKind.ofWord (c :: cs)).WellFormed ∧ (TokenKind.ofWord (c :: cs)).spelling = c :: cs := by
  have hList : (String.ofList (c :: cs)).toList = c :: cs := String.toList_ofList
  unfold TokenKind.ofWord
  simp only
  split
  · rename_i hTrue
    exact ⟨trivial, by rw [← hList, hTrue]; rfl⟩
  · split
    · rename_i hFalse
      exact ⟨trivial, by rw [← hList, hFalse]; rfl⟩
    · split
      · rename_i hNull
        exact ⟨trivial, by rw [← hList, hNull]; rfl⟩
      · rename_i hTrue hFalse hNull
        have hName : NameText (String.ofList (c :: cs)).toList := by
          rw [hList]
          exact .mk hStart hRest
        exact ⟨⟨hName, hTrue, hFalse, hNull⟩, hList⟩

/-- Tokens that are written as words. -/
def TokenKind.isWord : TokenKind → Bool
  | .name _ | .boolean _ | .null => true
  | _ => false

theorem TokenKind.WellFormed.word {k : TokenKind} (hWell : k.WellFormed) (hWord : k.isWord = true) :
    NameText k.spelling ∧ TokenKind.ofWord k.spelling = k := by
  have hLetters : ∀ cs : List Char, isNameStart (cs.headD ' ') = true →
      cs.all isNameContinue = true → NameText cs := by
    intro cs hStart hAll
    cases cs with
    | nil => cases hStart
    | cons c cs =>
      exact .mk hStart fun d hd => List.all_eq_true.mp hAll d (List.mem_cons_of_mem c hd)
  cases k with
  | name text =>
    obtain ⟨hName, hTrue, hFalse, hNull⟩ := hWell
    exact ⟨hName, by simp [spelling, ofWord, hTrue, hFalse, hNull]⟩
  | boolean value => cases value <;> exact ⟨hLetters _ (by decide) (by decide), by decide⟩
  | null => exact ⟨hLetters _ (by decide) (by decide), by decide⟩
  | _ => cases hWord

/-! ## The scan of a token -/

theorem scanName_sound {c : Char} {cs : List Char} (hStart : isNameStart c = true) {n : Nat}
    {k : TokenKind} (h : scanName c cs = ⟨n, .token k⟩) :
    k.WellFormed ∧ ∃ t rest, cs = t ++ rest ∧ k.spelling = c :: t ∧ n = t.length := by
  cases h
  have hRest : ∀ d ∈ cs.takeWhile isNameContinue, isNameContinue d = true :=
    fun d hd => of_mem_takeWhile hd
  have hWord := TokenKind.ofWord_sound hStart hRest
  exact ⟨hWord.1, _, cs.dropWhile isNameContinue, List.takeWhile_append_dropWhile.symm, hWord.2, rfl⟩

theorem scanDots_sound {cs : List Char} {n : Nat} {k : TokenKind}
    (h : scanDots cs = ⟨n, .token k⟩) :
    k.WellFormed ∧ ∃ t rest, cs = t ++ rest ∧ k.spelling = '.' :: t ∧ n = t.length := by
  unfold scanDots at h
  simp only at h
  split at h
  · rename_i rest hFirst
    split at h
    · rename_i last hLast
      split at h
      · rename_i hFirstGap hLastGap
        rw [hFirstGap, List.drop_zero] at hFirst
        rw [hLastGap, List.drop_zero] at hLast
        rw [hFirstGap, hLastGap] at h
        cases h
        exact ⟨trivial, ['.', '.'], last, by rw [hFirst, hLast]; rfl, rfl, rfl⟩
      all_goals cases h
    · cases h
  · cases h

theorem scanNumberToken_sound {c : Char} {cs : List Char} {n : Nat} {k : TokenKind}
    (h : scanNumberToken (c :: cs) = ⟨n, .token k⟩) :
    k.WellFormed ∧ ∃ t rest, cs = t ++ rest ∧ k.spelling = c :: t ∧ n = t.length := by
  unfold scanNumberToken at h
  split at h
  · rename_i kind length hScan
    obtain ⟨t, rest, hText, rfl, hNumber⟩ := scanNumber_sound hScan
    obtain ⟨d, t, rfl⟩ := hNumber.exists_cons
    rw [List.cons_append] at hText
    injection hText with hHead hTail
    subst hHead hTail
    have hTake : (c :: (t ++ rest)).take (c :: t).length = c :: t := by simp
    rw [hTake] at h
    cases kind <;> cases h <;>
      exact ⟨by simpa [TokenKind.WellFormed, NumberText] using hNumber, t, rest, rfl,
        by simp [TokenKind.spelling], rfl⟩
  · split at h <;> cases h

theorem scanString_sound {cs : List Char} {n : Nat} {k : TokenKind}
    (h : scanString cs = ⟨n, .token k⟩) :
    k.WellFormed ∧ ∃ t rest, cs = t ++ rest ∧ k.spelling = '"' :: t ∧ n = t.length := by
  unfold scanString at h
  split at h
  · rename_i length hEnd
    obtain ⟨t, rest, rfl, rfl, hString⟩ := literalEnd_sound hEnd
    rw [Nat.add_sub_cancel, List.take_left] at h
    cases h
    exact ⟨by simpa [TokenKind.WellFormed] using hString, t, rest, rfl,
      by simp [TokenKind.spelling], rfl⟩
  · cases h

/-- A token that the scan finds is well-formed and stands there as it is spelled. -/
theorem scanToken_sound {c : Char} {cs : List Char} {n : Nat} {k : TokenKind}
    (h : scanToken c cs = ⟨n, .token k⟩) :
    k.WellFormed ∧ ∃ t rest, cs = t ++ rest ∧ k.spelling = c :: t ∧ n = t.length := by
  unfold scanToken at h
  split at h
  · rename_i p hPunctuator
    cases h
    exact ⟨trivial, [], cs, rfl, Punctuator.ofChar?_eq_some_iff.mp hPunctuator, rfl⟩
  · split at h
    · rename_i hDot
      exact hDot ▸ scanDots_sound h
    · split at h
      · rename_i hQuote
        exact hQuote ▸ scanString_sound h
      · split at h
        · rename_i hStart
          exact scanName_sound hStart h
        · split at h
          · exact scanNumberToken_sound h
          · cases h

theorem isNameStart_of_ne {c : Char} (hStart : isNameStart c = true) : c ≠ '.' ∧ c ≠ '"' := by
  constructor <;> rintro rfl <;> cases hStart

theorem scanToken_start {c : Char} (h : isNameStart c = true) (cs : List Char) :
    scanToken c cs = scanName c cs := by
  obtain ⟨hDot, hQuote⟩ := isNameStart_of_ne h
  rw [scanToken, Punctuator.ofChar?_eq_none (.inl h)]
  simp only [if_neg hDot, if_neg hQuote, if_pos h]

theorem NameText.scan {c : Char} {t rest : List Char} (h : NameText (c :: t))
    (hRest : StopsAt isNameContinue rest) :
    scanToken c (t ++ rest) = ⟨t.length, .token (.ofWord (c :: t))⟩ := by
  cases h with
  | mk hStart hContinue =>
    rw [scanToken_start hStart]
    simp only [scanName, takeWhile_append_stop hContinue hRest]

theorem NumberText.head {k : NumberKind} {c : Char} {t : List Char} (h : NumberText k (c :: t)) :
    c = '-' ∨ c.isDigit = true := by
  obtain ⟨i, tail, hi, hInt, -⟩ := h.split
  cases hInt with
  | plain hPart =>
    cases hPart with
    | zero =>
      obtain ⟨rfl, -⟩ := List.cons.inj hi
      exact .inr rfl
    | digits hDigit =>
      obtain ⟨rfl, -⟩ := List.cons.inj hi
      exact .inr hDigit
  | negative =>
    obtain ⟨rfl, -⟩ := List.cons.inj hi
    exact .inl rfl

theorem isNameStart_eq_false {c : Char} (h : c = '-' ∨ c.isDigit = true) :
    isNameStart c = false := by
  rcases h with rfl | hDigit
  · rfl
  · have hUnderscore : c ≠ '_' := by
      rintro rfl
      cases hDigit
    have hCode : 48 ≤ c.val ∧ c.val ≤ 57 := by
      simpa [Char.isDigit] using hDigit
    have hLetter : c.isAlpha = false := by
      change (decide (65 ≤ c.val ∧ c.val ≤ 90) ||
        (decide (97 ≤ c.val) && decide (c.val ≤ 122))) = false
      grind
    simp [isNameStart, hUnderscore, hLetter]

theorem scanToken_number {c : Char} (h : c = '-' ∨ c.isDigit = true) (cs : List Char) :
    scanToken c cs = scanNumberToken (c :: cs) := by
  have hDot : c ≠ '.' := by
    rintro rfl
    simp at h
  have hQuote : c ≠ '"' := by
    rintro rfl
    simp at h
  have hStart : isNameStart c ≠ true := by
    simp [isNameStart_eq_false h]
  rw [scanToken, Punctuator.ofChar?_eq_none (h.elim (.inr ∘ .inl) (.inr ∘ .inr ∘ .inl))]
  simp only [if_neg hDot, if_neg hQuote, if_neg hStart, if_pos h]

theorem NumberText.scan {k : NumberKind} {c : Char} {t rest : List Char}
    (h : NumberText k (c :: t)) (hRest : EndsNumber rest) :
    scanToken c (t ++ rest) = ⟨t.length, .token
      (match k with
        | .int => .int (String.ofList (c :: t))
        | .float => .float (String.ofList (c :: t)))⟩ := by
  have hScan := scanNumber_append h hRest
  rw [List.cons_append] at hScan
  have hTake : (c :: (t ++ rest)).take (c :: t).length = c :: t := by simp
  rw [scanToken_number h.head]
  simp only [scanNumberToken, hScan, hTake]
  cases k <;> rfl

theorem scanToken_quote (cs : List Char) : scanToken '"' cs = scanString cs := by
  have hNone : Punctuator.ofChar? '"' = none := by decide
  rw [scanToken, hNone]
  rfl

theorem StringText.scan {t rest : List Char} (h : StringText ('"' :: t))
    (hRest : t = ['"'] → rest.head? ≠ some '"') :
    scanToken '"' (t ++ rest) = ⟨t.length, .token (.string (String.ofList ('"' :: t)))⟩ := by
  rw [scanToken_quote]
  simp [scanString, literalEnd_append h hRest]

theorem StringText.exists_cons {t : List Char} (h : StringText t) : ∃ u, t = '"' :: u := by
  cases h with
  | quoted => exact ⟨_, rfl⟩
  | block => exact ⟨_, rfl⟩

/-- The scan finds a well-formed token where its spelling stands. -/
theorem scanToken_append {k : TokenKind} {c : Char} {t rest : List Char} (hWell : k.WellFormed)
    (hText : k.spelling = c :: t) (hRest : k.EndsBefore rest) :
    scanToken c (t ++ rest) = ⟨t.length, .token k⟩ := by
  by_cases hWord : k.isWord = true
  · obtain ⟨hName, hKind⟩ := hWell.word hWord
    rw [hText] at hName hKind
    rw [hName.scan (by cases k <;> first | exact hRest | cases hWord), hKind]
  · cases k with
    | punctuator p =>
      cases p with
      | ellipsis =>
        cases hText
        rfl
      | _ =>
        cases hText
        rfl
    | int raw =>
      have hNumber : NumberText .int (c :: t) := by rwa [← hText]
      rw [hNumber.scan hRest]
      simp [← hText, TokenKind.spelling]
    | float raw =>
      have hNumber : NumberText .float (c :: t) := by rwa [← hText]
      rw [hNumber.scan hRest]
      simp [← hText, TokenKind.spelling]
    | string raw =>
      have hString : StringText (c :: t) := by rwa [← hText]
      obtain ⟨u, hu⟩ := hString.exists_cons
      cases hu
      rw [hString.scan fun _ => hRest]
      simp [← hText, TokenKind.spelling]
    | endOfInput | error => cases hWell
    | name | boolean | null => exact absurd rfl hWord

end GraphQLSyntax
