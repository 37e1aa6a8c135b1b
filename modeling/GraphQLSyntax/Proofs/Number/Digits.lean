import GraphQLSyntax.Number.Decimal
import GraphQLSyntax.Proofs.Lexing.NumberText

/-!
# Runs of decimal digits
-/

set_option autoImplicit false

namespace GraphQLSyntax

theorem power_pos {base : Nat} (h : 0 < base) (n : Nat) : 0 < Nat.pow base n := Nat.pow_pos h

theorem digitsValue_append (xs ys : List Char) :
    digitsValue (xs ++ ys) = digitsValue xs * Nat.pow 10 ys.length + digitsValue ys := by
  change Nat.ofDigitChars 10 (xs ++ ys) 0 = _
  rw [Nat.ofDigitChars_append, Nat.ofDigitChars_eq_ofDigitChars_zero, Nat.mul_comm]
  rfl

theorem digitsValue_zeros (n : Nat) : digitsValue (List.replicate n '0') = 0 := by
  change Nat.ofDigitChars 10 (List.replicate n '0') 0 = 0
  rw [Nat.ofDigitChars_replicate_zero, Nat.mul_zero]

theorem digitsValue_append_zeros (xs : List Char) (n : Nat) :
    digitsValue (xs ++ List.replicate n '0') = digitsValue xs * Nat.pow 10 n := by
  rw [digitsValue_append, digitsValue_zeros, List.length_replicate, Nat.add_zero]

theorem digitsValue_zeros_append (n : Nat) (xs : List Char) :
    digitsValue (List.replicate n '0' ++ xs) = digitsValue xs := by
  rw [digitsValue_append, digitsValue_zeros, Nat.zero_mul, Nat.zero_add]

theorem digitsValue_toDigits (n : Nat) : digitsValue (Nat.toDigits 10 n) = n :=
  Nat.ofDigitChars_ten_toDigits

theorem allDigits_toDigits (n : Nat) : AllDigits (Nat.toDigits 10 n) := by
  intro c hc
  exact Nat.isDigit_of_mem_toDigits (by decide) (by decide) hc

theorem allDigits_zeros (n : Nat) : AllDigits (List.replicate n '0') := by
  intro c hc
  rw [List.eq_of_mem_replicate hc]
  rfl

theorem AllDigits.append {xs ys : List Char} (hxs : AllDigits xs) (hys : AllDigits ys) :
    AllDigits (xs ++ ys) := by
  intro c hc
  exact (List.mem_append.mp hc).elim (hxs c) (hys c)

/-- The first digit of a positive number is no zero. -/
theorem toDigits_eq_cons {n : Nat} (h : 0 < n) :
    ∃ c cs, Nat.toDigits 10 n = c :: cs ∧ c ≠ '0' := by
  induction n using Nat.strongRecOn with
  | ind n ih =>
    by_cases hSmall : n < 10
    · refine ⟨_, [], Nat.toDigits_of_lt_base hSmall, ?_⟩
      intro hZero
      have hValue : n.digitChar.toNat - 48 = n := Nat.toNat_digitChar_sub_48_of_lt_ten hSmall
      rw [hZero] at hValue
      simp at hValue
      omega
    · obtain ⟨c, cs, hDigits, hc⟩ := ih (n / 10) (by omega) (by omega)
      refine ⟨c, cs ++ [(n % 10).digitChar], ?_, hc⟩
      rw [Nat.toDigits_of_base_le (by decide) (by omega), hDigits]
      rfl

theorem integerPart_toDigits (n : Nat) : IntegerPart (Nat.toDigits 10 n) := by
  cases Nat.eq_zero_or_pos n with
  | inl hZero =>
    rw [hZero, Nat.toDigits_zero]
    exact .zero
  | inr hPositive =>
    obtain ⟨c, cs, hDigits, hc⟩ := toDigits_eq_cons hPositive
    have hAll := allDigits_toDigits n
    rw [hDigits] at hAll ⊢
    exact .digits (hAll c (by simp)) hc fun d hd => hAll d (by simp [hd])

theorem IntegerPart.allDigits {cs : List Char} (h : IntegerPart cs) : cs ≠ [] ∧ AllDigits cs := by
  cases h with
  | zero => exact ⟨by simp, allDigits_zeros 1⟩
  | @digits c cs hc _ hcs =>
    refine ⟨by simp, ?_⟩
    intro d hd
    rcases List.mem_cons.mp hd with rfl | hd
    · exact hc
    · exact hcs d hd

theorem natural?_of_digits {cs : List Char} (hNonempty : cs ≠ []) (hDigits : AllDigits cs) :
    natural? cs = some (digitsValue cs) := by
  rw [natural?, if_pos ⟨hNonempty, List.all_eq_true.mpr hDigits⟩]

/-- A digit is no sign. -/
theorem splitSign_digits {cs : List Char} (hNonempty : cs ≠ []) (hDigits : AllDigits cs)
    (rest : List Char) : splitSign (cs ++ rest) = (false, cs ++ rest) := by
  obtain ⟨c, cs, rfl⟩ := List.exists_cons_of_ne_nil hNonempty
  have hc : c.isDigit = true := hDigits c (by simp)
  have hMinus : c ≠ '-' := by
    rintro rfl
    cases hc
  have hPlus : c ≠ '+' := by
    rintro rfl
    cases hc
  unfold splitSign
  split
  · rename_i hText
    exact absurd (List.cons.inj hText).1 hMinus
  · rename_i hText
    exact absurd (List.cons.inj hText).1 hPlus
  · rfl

theorem length_toDigits_le {n k : Nat} (hk : 0 < k) (h : n < Nat.pow 10 k) :
    (Nat.toDigits 10 n).length ≤ k :=
  (Nat.length_toDigits_le_iff (by decide) hk).mpr h

theorem lt_length_toDigits {n k : Nat} (hk : 0 < k) (h : Nat.pow 10 k ≤ n) :
    k < (Nat.toDigits 10 n).length := by
  apply Nat.lt_of_not_le
  rw [Nat.length_toDigits_le_iff (by decide) hk]
  exact Nat.not_lt.mpr h

theorem length_toDigits_mul_pow {n : Nat} (h : 0 < n) (k : Nat) :
    (Nat.toDigits 10 (n * Nat.pow 10 k)).length = (Nat.toDigits 10 n).length + k := by
  induction k with
  | zero => simp
  | succ k ih =>
    have hPositive : 0 < n * Nat.pow 10 k := Nat.mul_pos h (power_pos (by decide) k)
    have hStep : n * Nat.pow 10 (k + 1) = 10 * (n * Nat.pow 10 k) + 0 := by
      simp [Nat.pow_succ, Nat.mul_comm, Nat.mul_left_comm]
    rw [hStep, ← Nat.toDigits_append_toDigits (by decide) hPositive (by decide), List.length_append,
      ih, Nat.toDigits_zero]
    rfl

end GraphQLSyntax
