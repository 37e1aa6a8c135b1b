import GraphQLSyntax.StringLiteral.Quoted
import GraphQLSyntax.Proofs.Lexing.StringText

/-!
# Quoted literals read back as they were written

Every character is written as itself, as a named escape or as an escape of its code point. A literal
stands for characters of four hexadecimal digits only, and those can be written.
-/

set_option autoImplicit false

namespace GraphQLSyntax

/-- Characters with a code point of at most four hexadecimal digits. -/
def BasicPlane (cs : List Char) : Prop := ∀ c ∈ cs, c.toNat ≤ 0xFFFF

theorem BasicPlane.cons {c : Char} {cs : List Char} (hc : c.toNat ≤ 0xFFFF) (hcs : BasicPlane cs) :
    BasicPlane (c :: cs) := by
  intro d hd
  rcases List.mem_cons.mp hd with rfl | hd
  · exact hc
  · exact hcs d hd

/-! ## Code points -/

/-- The character that four digits name. -/
def namedByDigits? : List Char → Option Char
  | [a, b, c, d] => escapedScalar? a b c d
  | _ => none

theorem namedByDigits?_upperHex {c : Char} (h : needsCodePoint c = true) :
    namedByDigits? (upperHex 4 c.toNat) = some c := by
  have hControl : ∀ n < 0x20, namedByDigits? (upperHex 4 n) = some (Char.ofNat n) := by decide +kernel
  have hMark : namedByDigits? (upperHex 4 0xFEFF) = some (Char.ofNat 0xFEFF) := by decide +kernel
  have hNumber : namedByDigits? (upperHex 4 c.toNat) = some (Char.ofNat c.toNat) := by
    simp only [needsCodePoint, Bool.or_eq_true, decide_eq_true_eq] at h
    rcases h with h | h
    · exact hControl _ h
    · rw [h]
      exact hMark
  rw [hNumber, Char.ofNat_toNat]

theorem hexValue?_lt {c : Char} {n : Nat} (h : hexValue? c = some n) : n < 16 := by
  unfold hexValue? at h
  split at h
  · rename_i hDigit
    cases h
    simp only [Char.isDigit, Bool.and_eq_true, decide_eq_true_eq] at hDigit
    have hUpper : c.toNat ≤ 57 := hDigit.2
    simp
    omega
  · split at h
    · rename_i hLetter
      cases h
      simp only [Bool.and_eq_true, decide_eq_true_eq] at hLetter
      have hUpper : c.toNat ≤ 102 := hLetter.2
      simp
      omega
    · split at h
      · rename_i hLetter
        cases h
        simp only [Bool.and_eq_true, decide_eq_true_eq] at hLetter
        have hUpper : c.toNat ≤ 70 := hLetter.2
        simp
        omega
      · cases h

theorem toNat_ofNat {n : Nat} (h : n.isValidChar) : (Char.ofNat n).toNat = n := by
  have hChar : Char.ofNat n = Char.ofNatAux n h := dif_pos h
  rw [hChar]
  rfl

theorem toNat_ofNat_le (n : Nat) : (Char.ofNat n).toNat ≤ n := by
  by_cases hValid : n.isValidChar
  · exact Nat.le_of_eq (toNat_ofNat hValid)
  · have hChar : Char.ofNat n = '\x00' := dif_neg hValid
    rw [hChar]
    exact Nat.zero_le n

theorem escapedScalar?_basic {a b c d x : Char} (h : escapedScalar? a b c d = some x) :
    x.toNat ≤ 0xFFFF := by
  simp only [escapedScalar?, hexNumber?, List.foldl_cons, List.foldl_nil, Option.bind_some] at h
  cases ha : hexValue? a with
  | none => simp [ha] at h
  | some i =>
    cases hb : hexValue? b with
    | none => simp [ha, hb] at h
    | some j =>
      cases hc : hexValue? c with
      | none => simp [ha, hb, hc] at h
      | some k =>
        cases hd : hexValue? d with
        | none => simp [ha, hb, hc, hd] at h
        | some l =>
          have hi := hexValue?_lt ha
          have hj := hexValue?_lt hb
          have hk := hexValue?_lt hc
          have hl := hexValue?_lt hd
          simp only [ha, hb, hc, hd, Option.map_some, Option.bind_some] at h
          split at h
          · cases h
          · cases h
            exact Nat.le_trans (toNat_ofNat_le _) (by omega)

theorem namedEscape?_basic {c x : Char} (h : namedEscape? c = some x) : x.toNat ≤ 0xFFFF := by
  unfold namedEscape? at h
  split at h
  all_goals
    cases h
  all_goals decide

/-! ## Writing -/

/-- The ways to write a character. -/
inductive Encodes : Char → List Char → Prop
  | plain {c : Char} : c ≠ '"' → c ≠ '\\' → isStringCharacter c = true → Encodes c [c]
  | named {c e : Char} : namedEscape? e = some c → Encodes c ['\\', e]
  | codePoint {x a b c d : Char} : escapedScalar? a b c d = some x → Encodes x ['\\', 'u', a, b, c, d]

theorem encodes_encodeChar {c : Char} (h : c.toNat ≤ 0xFFFF) : Encodes c (encodeChar c) := by
  unfold encodeChar
  split
  case h_8 hQuote hBackslash _ _ _ _ _ =>
    split
    · rename_i hNeeds
      have hNamed := namedByDigits?_upperHex hNeeds
      unfold namedByDigits? at hNamed
      split at hNamed
      · rename_i a b x d hDigits
        rw [hDigits]
        exact .codePoint hNamed
      · cases hNamed
    · rename_i hNeeds
      refine .plain hQuote hBackslash ?_
      simp [needsCodePoint] at hNeeds
      simp [isStringCharacter, h, hNeeds]
  all_goals exact .named rfl

theorem quotedTail_encode {value : List Char} (h : BasicPlane value) :
    QuotedTail (value.flatMap encodeChar ++ ['"']) := by
  induction value with
  | nil => exact .close
  | cons c cs ih =>
    have hTail := ih fun d hd => h d (List.mem_cons_of_mem c hd)
    rw [List.flatMap_cons, List.append_assoc]
    have hEncodes := encodes_encodeChar (h c List.mem_cons_self)
    generalize encodeChar c = text at hEncodes
    cases hEncodes with
    | plain hQuote hBackslash hPlain => exact .plain hQuote hBackslash hPlain hTail
    | named hNamed => exact .named (by rw [hNamed]; rfl) hTail
    | codePoint hScalar => exact .codePoint (by rw [hScalar]; rfl) hTail

/-! ## Reading -/

theorem decodeEscapes_plain {c : Char} (h : c ≠ '\\') (cs : List Char) :
    decodeEscapes (c :: cs) = (decodeEscapes cs).map (c :: ·) := by
  rw [decodeEscapes]
  all_goals simp [h]

theorem decodeEscapes_named {c x : Char} (h : namedEscape? c = some x) (cs : List Char) :
    decodeEscapes ('\\' :: c :: cs) = (decodeEscapes cs).map (x :: ·) := by
  have hLetter : c ≠ 'u' := by
    rintro rfl
    cases h
  rw [decodeEscapes]
  · rw [h]
  all_goals simp [hLetter]

theorem decodeEscapes_codePoint {a b c d x : Char} (h : escapedScalar? a b c d = some x)
    (cs : List Char) :
    decodeEscapes ('\\' :: 'u' :: a :: b :: c :: d :: cs) = (decodeEscapes cs).map (x :: ·) := by
  rw [decodeEscapes, h]

/-- Characters outside of the basic plane have no escapes and are written as they are. -/
theorem encodeChar_supplementary {c : Char} (h : 0xFFFF < c.toNat) : encodeChar c = [c] := by
  unfold encodeChar
  split
  case h_8 =>
    refine if_neg ?_
    simp only [needsCodePoint, Bool.or_eq_true, decide_eq_true_eq]
    omega
  all_goals exact absurd h (by decide)

/-- However a character is written, it is read back. -/
theorem decodeEscapes_encodeChar (c : Char) (cs : List Char) :
    decodeEscapes (encodeChar c ++ cs) = (decodeEscapes cs).map (c :: ·) := by
  by_cases hBasic : c.toNat ≤ 0xFFFF
  · have hEncodes := encodes_encodeChar hBasic
    generalize encodeChar c = text at hEncodes
    cases hEncodes with
    | plain _ hBackslash _ => exact decodeEscapes_plain hBackslash cs
    | named hNamed => exact decodeEscapes_named hNamed cs
    | codePoint hScalar => exact decodeEscapes_codePoint hScalar cs
  · have hBackslash : c ≠ '\\' := by
      rintro rfl
      exact hBasic (by decide)
    rw [encodeChar_supplementary (by omega)]
    exact decodeEscapes_plain hBackslash cs

theorem decodeEscapes_encode (value : List Char) : decodeEscapes (value.flatMap encodeChar) = .ok value := by
  induction value with
  | nil => rfl
  | cons c cs ih =>
    rw [List.flatMap_cons, decodeEscapes_encodeChar, ih]
    rfl

theorem decodeEscapes_of_not_mem {cs : List Char} (h : '\\' ∉ cs) : decodeEscapes cs = .ok cs := by
  induction cs with
  | nil => rfl
  | cons c cs ih =>
    have hc : c ≠ '\\' := fun hc => h (hc ▸ List.mem_cons_self)
    rw [decodeEscapes_plain hc, ih fun hMem => h (List.mem_cons_of_mem c hMem)]
    rfl

/-- Content without a backslash is no exception. -/
theorem decodeQuoted_eq (content : List Char) :
    decodeQuoted ('"' :: (content ++ ['"'])) = decodeEscapes content := by
  have hContent : quotedContent? ('"' :: (content ++ ['"'])) = some content := by
    simp [quotedContent?]
  rw [decodeQuoted, hContent]
  dsimp only
  split
  · rfl
  · rename_i hPlain
    exact (decodeEscapes_of_not_mem hPlain).symm

theorem decodeQuoted_encodeQuoted (value : List Char) : decodeQuoted (encodeQuoted value) = .ok value := by
  have hText : encodeQuoted value = '"' :: (value.flatMap encodeChar ++ ['"']) := rfl
  rw [hText, decodeQuoted_eq, decodeEscapes_encode]

theorem map_cons_ok {r : Except StringFault (List Char)} {c : Char} {value : List Char}
    (h : r.map (c :: ·) = .ok value) : ∃ rest, r = .ok rest ∧ value = c :: rest := by
  cases r with
  | error => cases h
  | ok rest =>
    cases h
    exact ⟨rest, rfl, rfl⟩

/-- A quoted literal is its content between quotes, and it stands for characters that can be written. -/
theorem QuotedTail.decode_basic {t : List Char} (h : QuotedTail t) :
    ∃ content, t = content ++ ['"'] ∧ ∀ value, decodeEscapes content = .ok value → BasicPlane value := by
  induction h with
  | close =>
    refine ⟨[], rfl, ?_⟩
    intro value hValue
    cases hValue
    exact fun c hc => nomatch hc
  | @plain c cs _ hBackslash hPlain _ ih =>
    obtain ⟨content, rfl, hBasic⟩ := ih
    refine ⟨c :: content, rfl, ?_⟩
    intro value hValue
    rw [decodeEscapes_plain hBackslash] at hValue
    obtain ⟨rest, hRest, rfl⟩ := map_cons_ok hValue
    simp only [isStringCharacter, Bool.and_eq_true, decide_eq_true_eq] at hPlain
    exact .cons hPlain.1.2 (hBasic rest hRest)
  | @named c cs hNamed _ ih =>
    obtain ⟨content, rfl, hBasic⟩ := ih
    obtain ⟨x, hx⟩ := Option.isSome_iff_exists.mp hNamed
    refine ⟨'\\' :: c :: content, rfl, ?_⟩
    intro value hValue
    rw [decodeEscapes_named hx] at hValue
    obtain ⟨rest, hRest, rfl⟩ := map_cons_ok hValue
    exact .cons (namedEscape?_basic hx) (hBasic rest hRest)
  | @codePoint a b c d cs hScalar _ ih =>
    obtain ⟨content, rfl, hBasic⟩ := ih
    obtain ⟨x, hx⟩ := Option.isSome_iff_exists.mp hScalar
    refine ⟨'\\' :: 'u' :: a :: b :: c :: d :: content, rfl, ?_⟩
    intro value hValue
    rw [decodeEscapes_codePoint hx] at hValue
    obtain ⟨rest, hRest, rfl⟩ := map_cons_ok hValue
    exact .cons (escapedScalar?_basic hx) (hBasic rest hRest)

end GraphQLSyntax
