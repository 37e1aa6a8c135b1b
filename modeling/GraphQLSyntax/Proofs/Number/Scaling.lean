import GraphQLSyntax.Number.Binary64
import GraphQLSyntax.Proofs.Number.Digits

/-!
# Decimals of one value

The number that is nearest to a decimal depends on the decimal's value alone. Zeros at the end of a
coefficient may be moved into the exponent.
-/

set_option autoImplicit false

namespace GraphQLSyntax

theorem roundQuotient_scale (num den : Nat) {t : Nat} (ht : 0 < t) :
    roundQuotient (num * t) (den * t) = roundQuotient num den := by
  have hDiv : num * t / (den * t) = num / den := Nat.mul_div_mul_right num den ht
  have hMod : num * t % (den * t) = num % den * t := Nat.mul_mod_mul_right t num den
  have hBelow : 2 * (num % den * t) < den * t ↔ 2 * (num % den) < den := by
    rw [← Nat.mul_assoc]
    exact Nat.mul_lt_mul_right ht
  have hAbove : den * t < 2 * (num % den * t) ↔ den < 2 * (num % den) := by
    rw [← Nat.mul_assoc]
    exact Nat.mul_lt_mul_right ht
  simp only [roundQuotient, hDiv, hMod, hBelow, hAbove]

/-- A whole quotient is not rounded. -/
theorem roundQuotient_mul {den : Nat} (h : 0 < den) (n : Nat) : roundQuotient (n * den) den = n := by
  simp [roundQuotient, Nat.mul_div_cancel n h, Nat.mul_mod_left, h]

namespace Binary64

theorem nearestMagnitude_scale (num den : Nat) {t : Nat} (ht : 0 < t) :
    nearestMagnitude (num * t) (den * t) = nearestMagnitude num den := by
  have hScaled : num * t * Nat.pow 2 unitExponent = num * Nat.pow 2 unitExponent * t :=
    Nat.mul_right_comm num t _
  have hShifted : ∀ p, den * t * p = den * p * t := fun p => Nat.mul_right_comm den t p
  simp only [nearestMagnitude, hScaled, hShifted, Nat.mul_div_mul_right _ _ ht,
    roundQuotient_scale _ _ ht]

theorem magnitudeOfDecimal_mul_pow (coefficient k : Nat) (exponent : Int) :
    magnitudeOfDecimal (coefficient * Nat.pow 10 k) exponent =
      magnitudeOfDecimal coefficient (exponent + k) := by
  cases Nat.eq_zero_or_pos coefficient with
  | inl hZero => simp [hZero, magnitudeOfDecimal]
  | inr hPositive =>
    have hPow : ∀ n, 0 < Nat.pow 10 n := power_pos (by decide)
    have hProduct : coefficient * Nat.pow 10 k ≠ 0 :=
      Nat.ne_of_gt (Nat.mul_pos hPositive (hPow k))
    have hSize : ((Nat.toDigits 10 coefficient).length + k : Nat) + exponent =
        ((Nat.toDigits 10 coefficient).length : Int) + (exponent + k) := by
      omega
    -- Both quotients are of powers of ten, and one is the other times a power over itself.
    obtain ⟨t, hUpper, hLower⟩ : ∃ t, k + exponent.toNat = (exponent + k).toNat + t ∧
        (-exponent).toNat = (-(exponent + k)).toNat + t :=
      ⟨k + exponent.toNat - (exponent + k).toNat, by omega, by omega⟩
    have hNum : coefficient * Nat.pow 10 k * Nat.pow 10 exponent.toNat =
        coefficient * Nat.pow 10 (exponent + k).toNat * Nat.pow 10 t := by
      rw [Nat.mul_assoc, Nat.mul_assoc]
      simp only [Nat.pow_eq, ← Nat.pow_add, hUpper]
    have hDen : Nat.pow 10 (-exponent).toNat = Nat.pow 10 (-(exponent + k)).toNat * Nat.pow 10 t := by
      simp only [Nat.pow_eq, ← Nat.pow_add, hLower]
    simp only [magnitudeOfDecimal, if_neg hProduct, if_neg (Nat.ne_of_gt hPositive),
      length_toDigits_mul_pow hPositive k, hSize, hNum, hDen, nearestMagnitude_scale _ _ (hPow t)]

end Binary64

end GraphQLSyntax
