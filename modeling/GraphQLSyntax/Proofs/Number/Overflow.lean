import GraphQLSyntax.Proofs.Number.Scaling

/-!
# Decimals beyond the largest number

The nearest magnitude is infinity for the decimals from a bound on, and for no others. The bound lies halfway between
the largest finite number and the power of two that would come next. The former is odd, so the bound itself is
rounded up.
-/

set_option autoImplicit false

namespace GraphQLSyntax

/-! ## Rounding to an even number -/

theorem roundQuotient_bounds (num den : Nat) :
    num / den ≤ roundQuotient num den ∧ roundQuotient num den ≤ num / den + 1 := by
  unfold roundQuotient
  dsimp only
  split
  · omega
  · split <;> omega

/-- An even number is reached from halfway below it on, as a tie goes to it. -/
theorem even_le_roundQuotient_iff {num den n : Nat} (hDen : 0 < den) (hEven : n % 2 = 0) :
    n ≤ roundQuotient num den ↔ (2 * n - 1) * den ≤ 2 * num := by
  have hSplit : den * (num / den) + num % den = num := Nat.div_add_mod num den
  have hRest : num % den < den := Nat.mod_lt num hDen
  obtain ⟨hLower, hUpper⟩ := roundQuotient_bounds num den
  have hTwice : (2 * n - 1) * den = 2 * (den * n) - den := by
    rw [Nat.sub_mul, Nat.one_mul, Nat.mul_assoc, Nat.mul_comm n den]
  rcases Nat.lt_trichotomy (num / den + 1) n with hFar | hNext | hReached
  · have hStep : den * (num / den + 2) ≤ den * n := Nat.mul_le_mul_left den hFar
    rw [Nat.mul_add] at hStep
    constructor <;> omega
  · have hOdd : num / den % 2 = 1 := by omega
    have hStep : den * n = den * (num / den) + den := by rw [← hNext, Nat.mul_add, Nat.mul_one]
    have hRounded : n ≤ roundQuotient num den ↔ den ≤ 2 * (num % den) := by
      unfold roundQuotient
      dsimp only
      split
      · omega
      · split <;> omega
    omega
  · have hStep : den * n ≤ den * (num / den) := Nat.mul_le_mul_left den (by omega)
    constructor <;> omega

namespace Binary64

/-! ## The bound -/

/-- Two to the 1024, less half the distance from the largest finite number to it. -/
def overflowBound : Nat := (Nat.pow 2 54 - 1) * Nat.pow 2 970

/-- The bound in units of the smallest positive number. -/
def overflowUnits : Nat := overflowBound * Nat.pow 2 unitExponent

theorem pow_two_le {m n : Nat} (h : m ≤ n) : Nat.pow 2 m ≤ Nat.pow 2 n :=
  Nat.pow_le_pow_right (by decide) h

theorem pow_le_of_le_log2 {n bits : Nat} (hBits : 0 < bits) (h : bits ≤ n.log2) : Nat.pow 2 bits ≤ n := by
  have hNonzero : n ≠ 0 := by
    rintro rfl
    rw [Nat.log2_zero] at h
    omega
  exact (Nat.le_log2 hNonzero).mp h

theorem pow_le_overflowUnits {n : Nat} (h : n ≤ 2097) : Nat.pow 2 n ≤ overflowUnits :=
  Nat.le_trans (pow_two_le h) (by decide +kernel)

theorem overflowUnits_le_pow {n : Nat} (h : 2098 ≤ n) : overflowUnits ≤ Nat.pow 2 n :=
  Nat.le_trans (by decide +kernel) (pow_two_le h)

theorem two_mul_overflowUnits {shift : Nat} (h : shift = 2045) :
    2 * overflowUnits = (2 * (2 * binade) - 1) * Nat.pow 2 shift := by
  rw [h]
  decide +kernel

section

variable {scaled den : Nat}

/-- A quotient with fewer bits is rounded to a significand in the last finite binade, or to its end. -/
theorem nearest_small (h : (scaled / den).log2 < 2097) :
    let shift := (scaled / den).log2 - 52
    shift * binade + roundQuotient scaled (den * Nat.pow 2 shift) < infinityMagnitude := by
  intro shift
  have hSignificand : scaled / den / Nat.pow 2 shift < 2 * binade := by
    apply Nat.div_lt_of_lt_mul
    have hPower : Nat.pow 2 shift * (2 * binade) = Nat.pow 2 (shift + 53) := (Nat.pow_add 2 shift 53).symm
    have hBits : scaled / den < Nat.pow 2 ((scaled / den).log2 + 1) := Nat.lt_log2_self
    rw [hPower]
    exact Nat.lt_of_lt_of_le hBits (pow_two_le (by omega))
  obtain ⟨-, hRounded⟩ := roundQuotient_bounds scaled (den * Nat.pow 2 shift)
  rw [← Nat.div_div_eq_div_mul] at hRounded
  have hShift : shift * binade ≤ 2044 * binade := Nat.mul_le_mul_right binade (by omega)
  have hBinade : infinityMagnitude = 2047 * binade := rfl
  have hPositive : 0 < binade := by decide
  omega

theorem nearest_large (h : 2098 ≤ (scaled / den).log2) :
    let shift := (scaled / den).log2 - 52
    infinityMagnitude ≤ shift * binade + roundQuotient scaled (den * Nat.pow 2 shift) := by
  intro shift
  have hSignificand : binade ≤ scaled / den / Nat.pow 2 shift := by
    rw [Nat.le_div_iff_mul_le (power_pos (by decide) shift)]
    have hPower : binade * Nat.pow 2 shift = Nat.pow 2 (52 + shift) := (Nat.pow_add 2 52 shift).symm
    rw [hPower]
    exact pow_le_of_le_log2 (by omega) (by omega)
  obtain ⟨hRounded, -⟩ := roundQuotient_bounds scaled (den * Nat.pow 2 shift)
  rw [← Nat.div_div_eq_div_mul] at hRounded
  have hShift : 2046 * binade ≤ shift * binade := Nat.mul_le_mul_right binade (by omega)
  have hBinade : infinityMagnitude = 2047 * binade := rfl
  omega

/-- In the last binade the significand is rounded to an even power of two from the bound on. -/
theorem nearest_last (hDen : 0 < den) {shift : Nat} (hShift : shift = 2045) :
    infinityMagnitude ≤ shift * binade + roundQuotient scaled (den * Nat.pow 2 shift) ↔
      overflowUnits * den ≤ scaled := by
  have hUnits := two_mul_overflowUnits hShift
  have hPower : 0 < Nat.pow 2 shift := power_pos (by decide) shift
  generalize Nat.pow 2 shift = power at hUnits hPower ⊢
  have hEven : 2 * binade % 2 = 0 := by decide
  have hRounded := @even_le_roundQuotient_iff scaled (den * power) (2 * binade) (Nat.mul_pos hDen hPower) hEven
  have hBinade : infinityMagnitude = 2047 * binade := rfl
  have hBound : (2 * (2 * binade) - 1) * (den * power) = 2 * (overflowUnits * den) := by
    rw [Nat.mul_left_comm, ← hUnits, Nat.mul_left_comm, Nat.mul_comm den]
  rw [hBound] at hRounded
  rw [hShift]
  omega

theorem nearestMagnitude_eq_infinity_iff {num : Nat} (hDen : 0 < den) :
    nearestMagnitude num den = infinityMagnitude ↔ overflowBound * den ≤ num := by
  have hScaled : overflowBound * den ≤ num ↔ overflowUnits * den ≤ num * Nat.pow 2 unitExponent := by
    rw [overflowUnits, Nat.mul_right_comm]
    exact (Nat.mul_le_mul_right_iff (power_pos (by decide) unitExponent)).symm
  have hMin : ∀ n, min n infinityMagnitude = infinityMagnitude ↔ infinityMagnitude ≤ n := by omega
  rw [hScaled, nearestMagnitude, hMin]
  generalize num * Nat.pow 2 unitExponent = scaled
  rcases Nat.lt_trichotomy (scaled / den).log2 2097 with hSmall | hLast | hLarge
  · have hBelow : scaled < overflowUnits * den := by
      apply (Nat.div_lt_iff_lt_mul hDen).mp
      have hBits : scaled / den < Nat.pow 2 ((scaled / den).log2 + 1) := Nat.lt_log2_self
      exact Nat.lt_of_lt_of_le hBits (pow_le_overflowUnits hSmall)
    exact iff_of_false (Nat.not_le.mpr (nearest_small hSmall)) (Nat.not_le.mpr hBelow)
  · exact nearest_last hDen (by omega)
  · have hAbove : overflowUnits * den ≤ scaled := by
      apply (Nat.le_div_iff_mul_le hDen).mp
      exact Nat.le_trans (overflowUnits_le_pow hLarge) (pow_le_of_le_log2 (by omega) (Nat.le_refl _))
    exact iff_of_true (nearest_large hLarge) hAbove

end

/-! ## Decimals -/

theorem overflowBound_le_pow {n : Nat} (h : 310 ≤ n) : overflowBound ≤ Nat.pow 10 n :=
  Nat.le_trans (by decide +kernel) (Nat.pow_le_pow_right (by decide) h)

theorem overflowBound_pos : 0 < overflowBound := by
  decide +kernel

theorem nearestMagnitude_le (num den : Nat) : nearestMagnitude num den ≤ infinityMagnitude :=
  Nat.min_le_right _ _

theorem magnitudeOfDecimal_le (coefficient : Nat) (exponent : Int) :
    magnitudeOfDecimal coefficient exponent ≤ infinityMagnitude := by
  unfold magnitudeOfDecimal
  dsimp only
  split
  · exact Nat.zero_le _
  · split
    · exact Nat.le_refl _
    · split
      · exact Nat.zero_le _
      · exact nearestMagnitude_le _ _

theorem lt_pow_length (n : Nat) : n < Nat.pow 10 (Nat.toDigits 10 n).length := by
  have hLength : 0 < (Nat.toDigits 10 n).length := List.length_pos_iff.mpr Nat.toDigits_ne_nil
  exact (Nat.length_toDigits_le_iff (by decide) hLength).mp (Nat.le_refl _)

theorem pow_length_le {n : Nat} (h : n ≠ 0) : Nat.pow 10 ((Nat.toDigits 10 n).length - 1) ≤ n := by
  apply Nat.le_of_not_lt
  intro hBelow
  have hLength : 0 < (Nat.toDigits 10 n).length := List.length_pos_iff.mpr Nat.toDigits_ne_nil
  rcases Nat.eq_zero_or_pos ((Nat.toDigits 10 n).length - 1) with hOne | hMore
  · rw [hOne] at hBelow
    exact h (Nat.lt_one_iff.mp hBelow)
  · have hShorter := length_toDigits_le hMore hBelow
    omega

/-- A decimal that is told by its number of digits is on the same side of the bound as its value. -/
theorem magnitudeOfDecimal_eq_infinity_iff (coefficient : Nat) (exponent : Int) :
    magnitudeOfDecimal coefficient exponent = infinityMagnitude ↔
      overflowBound * Nat.pow 10 (-exponent).toNat ≤ coefficient * Nat.pow 10 exponent.toNat := by
  have hZero : 0 ≠ infinityMagnitude := by decide
  have hPow : ∀ n, 0 < Nat.pow 10 n := power_pos (by decide)
  have hMono : ∀ {m n}, m ≤ n → Nat.pow 10 m ≤ Nat.pow 10 n := Nat.pow_le_pow_right (by decide)
  have hAdd : ∀ m n, Nat.pow 10 m * Nat.pow 10 n = Nat.pow 10 (m + n) := fun m n => (Nat.pow_add 10 m n).symm
  have hBound : 0 < overflowBound * Nat.pow 10 (-exponent).toNat := Nat.mul_pos overflowBound_pos (hPow _)
  unfold magnitudeOfDecimal
  dsimp only
  split
  · rename_i hCoefficient
    refine iff_of_false hZero ?_
    rw [hCoefficient, Nat.zero_mul]
    omega
  · rename_i hCoefficient
    have hUpper := lt_pow_length coefficient
    have hLower := pow_length_le hCoefficient
    generalize (Nat.toDigits 10 coefficient).length = size at hUpper hLower ⊢
    split
    · rename_i hBeyond
      refine iff_of_true rfl ?_
      obtain ⟨n, hn, hPower⟩ : ∃ n, 310 ≤ n ∧ n + (-exponent).toNat = size - 1 + exponent.toNat :=
        ⟨size - 1 + exponent.toNat - (-exponent).toNat, by omega, by omega⟩
      calc overflowBound * Nat.pow 10 (-exponent).toNat
          ≤ Nat.pow 10 n * Nat.pow 10 (-exponent).toNat := Nat.mul_le_mul_right _ (overflowBound_le_pow hn)
        _ = Nat.pow 10 (size - 1 + exponent.toNat) := by rw [hAdd, hPower]
        _ = Nat.pow 10 (size - 1) * Nat.pow 10 exponent.toNat := (hAdd _ _).symm
        _ ≤ coefficient * Nat.pow 10 exponent.toNat := Nat.mul_le_mul_right _ hLower
    · split
      · rename_i hTiny
        refine iff_of_false hZero (Nat.not_le.mpr ?_)
        calc coefficient * Nat.pow 10 exponent.toNat
            < Nat.pow 10 size * Nat.pow 10 exponent.toNat := Nat.mul_lt_mul_of_pos_right hUpper (hPow _)
          _ = Nat.pow 10 (size + exponent.toNat) := hAdd _ _
          _ ≤ Nat.pow 10 (-exponent).toNat := hMono (by omega)
          _ ≤ overflowBound * Nat.pow 10 (-exponent).toNat := Nat.le_mul_of_pos_left _ overflowBound_pos
      · exact nearestMagnitude_eq_infinity_iff (hPow _)

end Binary64

end GraphQLSyntax
