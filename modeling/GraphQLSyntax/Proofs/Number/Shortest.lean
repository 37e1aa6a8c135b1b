import GraphQLSyntax.Number.Shortest
import GraphQLSyntax.Proofs.Number.Scaling

/-!
# Shortest digits read back

A grid point is only taken if it reads back. The exact value, which stands at the end of the search,
does so because no rounding takes place.
-/

set_option autoImplicit false

namespace GraphQLSyntax

/-- Digits that read back as a magnitude. The first one is no zero. -/
inductive Significant.Denotes : Significant → Nat → Prop
  | mk {c : Char} {cs : List Char} {exponent : Int} {magnitude : Nat} :
    c.isDigit = true → c ≠ '0' → AllDigits cs →
    Binary64.magnitudeOfDecimal (digitsValue (c :: cs)) (exponent - cs.length) = magnitude →
    Denotes ⟨c :: cs, exponent⟩ magnitude

theorem dropWhile_zeros (cs : List Char) :
    ∃ n, cs = List.replicate n '0' ++ cs.dropWhile (· = '0') := by
  induction cs with
  | nil => exact ⟨0, rfl⟩
  | cons c cs ih =>
    by_cases hc : c = '0'
    · obtain ⟨n, hn⟩ := ih
      refine ⟨n + 1, ?_⟩
      rw [List.dropWhile_cons_of_pos (by simpa using hc), List.replicate_succ, List.cons_append, ← hn, hc]
    · refine ⟨0, ?_⟩
      rw [List.dropWhile_cons_of_neg (by simpa using hc)]
      rfl

theorem Significant.ofScaled_digits (n : Nat) (exponent : Int) :
    ∃ k, Nat.toDigits 10 n = (ofScaled n exponent).digits ++ List.replicate k '0' := by
  obtain ⟨k, hk⟩ := dropWhile_zeros (Nat.toDigits 10 n).reverse
  refine ⟨k, ?_⟩
  have hReverse := congrArg List.reverse hk
  rwa [List.reverse_reverse, List.reverse_append, List.reverse_replicate] at hReverse

theorem Significant.ofScaled_denotes {n magnitude : Nat} {exponent : Int} (hn : 0 < n)
    (h : Binary64.magnitudeOfDecimal n exponent = magnitude) : (ofScaled n exponent).Denotes magnitude := by
  obtain ⟨k, hDigits⟩ := ofScaled_digits n exponent
  obtain ⟨c, cs, hCons, hc⟩ := toDigits_eq_cons hn
  have hAll := allDigits_toDigits n
  have hExponent : (ofScaled n exponent).exponent = exponent + (Nat.toDigits 10 n).length - 1 := rfl
  cases hScaled : ofScaled n exponent with
  | mk digits first =>
    rw [hScaled] at hDigits hExponent
    dsimp only at hDigits hExponent
    cases digits with
    | nil =>
      rw [List.nil_append, hCons] at hDigits
      exact absurd (List.eq_of_mem_replicate (hDigits ▸ List.mem_cons_self)) hc
    | cons d ds =>
      have hd : d = c := by
        rw [hCons, List.cons_append] at hDigits
        exact (List.cons.inj hDigits).1.symm
      have hValue : n = digitsValue (d :: ds) * Nat.pow 10 k := by
        rw [← digitsValue_append_zeros, ← hDigits, digitsValue_toDigits]
      have hLast : first - ds.length = exponent + k := by
        rw [hExponent, hDigits]
        simp only [List.length_append, List.length_cons, List.length_replicate]
        omega
      rw [hDigits] at hAll
      refine .mk (hAll d (by simp)) (hd ▸ hc) ?_ ?_
      · intro e he
        exact hAll e (by simp [he])
      · rw [hLast, ← Binary64.magnitudeOfDecimal_mul_pow, ← hValue, h]

namespace Binary64

theorem gridPoint?_reads {tie : DecimalTie} {magnitude n : Nat} {grid : Int}
    (h : gridPoint? tie magnitude grid = some n) : magnitudeOfDecimal n grid = magnitude := by
  unfold gridPoint? at h
  -- The neighbours are kept apart from the numbers they are computed from.
  generalize units magnitude * Nat.pow 10 (-grid).toNat = num at h
  generalize Nat.pow 2 unitExponent * Nat.pow 10 grid.toNat = den at h
  dsimp only at h
  split at h
  · rename_i hReads
    cases h
    split
    · exact hReads.2
    · exact hReads.1
  · split at h
    · cases h
      assumption
    · split at h
      · cases h
        assumption
      · cases h

/-! ## The exact value -/

theorem units_small {magnitude : Nat} (h : magnitude < binade) : units magnitude = magnitude := by
  rw [units, if_pos h]

theorem units_large {magnitude : Nat} (h : binade ≤ magnitude) :
    ∃ shift rest, magnitude = (shift + 1) * binade + rest ∧ rest < binade ∧
      units magnitude = (binade + rest) * Nat.pow 2 shift := by
  have hBinade : 0 < binade := by decide
  have hQuotient : 0 < magnitude / binade := Nat.div_pos h hBinade
  refine ⟨magnitude / binade - 1, magnitude % binade, ?_, Nat.mod_lt _ hBinade, ?_⟩
  · rw [Nat.sub_add_cancel hQuotient, Nat.mul_comm, Nat.div_add_mod]
  · rw [units, if_neg (Nat.not_lt.mpr h)]

theorem units_pos {magnitude : Nat} (h : 0 < magnitude) : 0 < units magnitude := by
  cases Nat.lt_or_ge magnitude binade with
  | inl hSmall => rwa [units_small hSmall]
  | inr hLarge =>
    obtain ⟨shift, rest, -, -, hUnits⟩ := units_large hLarge
    rw [hUnits]
    exact Nat.mul_pos (Nat.add_pos_left (by decide) rest) (power_pos (by decide) _)

theorem units_lt {magnitude : Nat} (h : magnitude < infinityMagnitude) :
    units magnitude < Nat.pow 2 2098 := by
  cases Nat.lt_or_ge magnitude binade with
  | inl hSmall =>
    rw [units_small hSmall]
    exact Nat.lt_trans hSmall (by decide +kernel)
  | inr hLarge =>
    obtain ⟨shift, rest, hMagnitude, hRest, hUnits⟩ := units_large hLarge
    have hShift : shift + 1 < 0x7FF := by
      apply Nat.lt_of_mul_lt_mul_right (a := binade)
      exact Nat.lt_of_le_of_lt (Nat.le_add_right _ rest) (hMagnitude ▸ h)
    have hFactor : binade + rest < Nat.pow 2 53 := by
      have hDouble : Nat.pow 2 53 = binade + binade := by decide
      omega
    have hPow : ∀ m n, m ≤ n → Nat.pow 2 m ≤ Nat.pow 2 n :=
      fun m n => Nat.pow_le_pow_right (by decide)
    have hLast := hPow shift 2045 (by omega)
    have hProduct : Nat.pow 2 53 * Nat.pow 2 2045 = Nat.pow 2 2098 := by decide +kernel
    rw [hUnits, ← hProduct]
    generalize Nat.pow 2 2045 = last at hLast
    exact Nat.mul_lt_mul_of_lt_of_le hFactor hLast (Nat.lt_of_lt_of_le (power_pos (by decide) _) hLast)

/-- A value that is a whole number of units is not rounded. -/
theorem nearestMagnitude_units {magnitude : Nat} (hPositive : 0 < magnitude)
    (hFinite : magnitude < infinityMagnitude) {num den : Nat} (hDen : 0 < den)
    (hValue : num * Nat.pow 2 unitExponent = units magnitude * den) :
    nearestMagnitude num den = magnitude := by
  have hQuotient : units magnitude * den / den = units magnitude := Nat.mul_div_cancel _ hDen
  simp only [nearestMagnitude, hValue, hQuotient]
  cases Nat.lt_or_ge magnitude binade with
  | inl hSmall =>
    have hLog : magnitude.log2 < 52 := (Nat.log2_lt (Nat.ne_of_gt hPositive)).mpr hSmall
    have hShift : magnitude.log2 - 52 = 0 := by omega
    rw [units_small hSmall, hShift, Nat.zero_mul, Nat.zero_add]
    change min (roundQuotient (magnitude * den) (den * 1)) infinityMagnitude = magnitude
    rw [Nat.mul_one, roundQuotient_mul hDen]
    exact Nat.min_eq_left (Nat.le_of_lt hFinite)
  | inr hLarge =>
    obtain ⟨shift, rest, hMagnitude, hRest, hUnits⟩ := units_large hLarge
    have hPow : 0 < Nat.pow 2 shift := power_pos (by decide) _
    have hLog : (units magnitude).log2 = 52 + shift := by
      rw [Nat.log2_eq_iff (Nat.ne_of_gt (units_pos hPositive)), hUnits]
      have hBinade : ∀ n, 2 ^ (52 + n) = binade * Nat.pow 2 n := fun n => Nat.pow_add 2 52 n
      have hNext : 2 ^ (52 + shift + 1) = (binade + binade) * Nat.pow 2 shift := by
        rw [Nat.pow_succ, hBinade, Nat.mul_two, Nat.add_mul]
      rw [hBinade, hNext]
      constructor
      · exact Nat.mul_le_mul_right _ (Nat.le_add_right _ _)
      · exact Nat.mul_lt_mul_of_pos_right (by omega) hPow
    have hShift : (units magnitude).log2 - 52 = shift := by omega
    have hProduct : (binade + rest) * Nat.pow 2 shift * den =
        (binade + rest) * (den * Nat.pow 2 shift) := by
      rw [Nat.mul_assoc, Nat.mul_comm (Nat.pow 2 shift)]
    rw [hShift, hUnits, hProduct, roundQuotient_mul (Nat.mul_pos hDen hPow)]
    have hSum : shift * binade + (binade + rest) = magnitude := by
      rw [hMagnitude, Nat.add_mul, Nat.one_mul, Nat.add_assoc]
    rw [hSum]
    exact Nat.min_eq_left (Nat.le_of_lt hFinite)

theorem magnitudeOfDecimal_exact {magnitude : Nat} (hPositive : 0 < magnitude)
    (hFinite : magnitude < infinityMagnitude) :
    magnitudeOfDecimal (units magnitude * Nat.pow 5 unitExponent) (-(unitExponent : Int)) = magnitude := by
  have hUnits := units_pos hPositive
  have hBound := units_lt hFinite
  have hFive : 0 < Nat.pow 5 unitExponent := power_pos (by decide) _
  have hTen : Nat.pow 5 unitExponent * Nat.pow 2 unitExponent = Nat.pow 10 unitExponent := by
    rw [Nat.pow_eq, Nat.pow_eq, Nat.pow_eq, ← Nat.mul_pow]
  generalize hCoefficient : units magnitude * Nat.pow 5 unitExponent = coefficient
  have hCoefficientPositive : 0 < coefficient := hCoefficient ▸ Nat.mul_pos hUnits hFive
  have hLong : 750 < (Nat.toDigits 10 coefficient).length := by
    apply lt_length_toDigits (by decide)
    apply Nat.le_trans (m := Nat.pow 5 unitExponent)
    · decide +kernel
    · rw [← hCoefficient]
      exact Nat.le_mul_of_pos_left _ hUnits
  have hShort : (Nat.toDigits 10 coefficient).length ≤ 1383 := by
    have hLimited : ∀ limit, Nat.pow 2 2098 * Nat.pow 5 unitExponent ≤ limit → coefficient < limit := by
      intro limit hLimit
      rw [← hCoefficient]
      exact Nat.lt_of_lt_of_le (Nat.mul_lt_mul_of_pos_right hBound hFive) hLimit
    exact length_toDigits_le (by decide) (hLimited _ (by decide +kernel))
  have hValue : coefficient * Nat.pow 10 (-(unitExponent : Int)).toNat * Nat.pow 2 unitExponent =
      units magnitude * Nat.pow 10 (- -(unitExponent : Int)).toNat := by
    have hOne : Nat.pow 10 0 = 1 := rfl
    rw [Int.neg_neg, Int.toNat_natCast, Int.toNat_neg_natCast, hOne, Nat.mul_one, ← hCoefficient, ← hTen,
      Nat.mul_assoc]
  have hExponent : (unitExponent : Int) = 1074 := rfl
  simp only [magnitudeOfDecimal, if_neg (Nat.ne_of_gt hCoefficientPositive)]
  rw [if_neg (by omega), if_neg (by omega)]
  exact nearestMagnitude_units hPositive hFinite (power_pos (by decide) _) hValue

theorem searchGrids_denotes {magnitude : Nat} (hPositive : 0 < magnitude)
    (hFinite : magnitude < infinityMagnitude) (tie : DecimalTie) (count : Nat) (grid : Int) :
    (searchGrids tie magnitude count grid).Denotes magnitude := by
  induction count generalizing grid with
  | zero =>
    have hValue : 0 < units magnitude * Nat.pow 5 unitExponent :=
      Nat.mul_pos (units_pos hPositive) (power_pos (by decide) _)
    exact Significant.ofScaled_denotes hValue (magnitudeOfDecimal_exact hPositive hFinite)
  | succ count ih =>
    rw [searchGrids]
    split
    · rename_i n hGrid
      have hReads := gridPoint?_reads hGrid
      have hn : 0 < n := by
        apply Nat.pos_of_ne_zero
        rintro rfl
        rw [← hReads] at hPositive
        cases hPositive
      exact Significant.ofScaled_denotes hn hReads
    · exact ih _

theorem shortest_denotes {magnitude : Nat} (hPositive : 0 < magnitude)
    (hFinite : magnitude < infinityMagnitude) (tie : DecimalTie) :
    (shortest tie magnitude).Denotes magnitude :=
  searchGrids_denotes hPositive hFinite tie _ _

end Binary64

end GraphQLSyntax
