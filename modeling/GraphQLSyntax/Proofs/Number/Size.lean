import Mathlib.Algebra.Field.Rat
import Mathlib.Algebra.Order.Field.Basic
import Mathlib.Algebra.Order.Ring.Rat
import Mathlib.Tactic.FieldSimp
import Mathlib.Tactic.NormNum.Pow
import GraphQLSyntax.Proofs.Number.Overflow
import GraphQLSyntax.Proofs.Number.Written

/-!
# Sizes of float literals

Each float literal denotes one rational number without its sign. It is read as a number that is finite if and only if
that number is below the bound from which on the nearest magnitude is infinity.
-/

set_option autoImplicit false

namespace GraphQLSyntax

/-- A fraction that may be missing, with its digits. -/
inductive OptionalFraction : List Char → List Char → Prop
  | none : OptionalFraction [] []
  | digits {ds : List Char} : ds ≠ [] → AllDigits ds → OptionalFraction ('.' :: ds) ds

/-- An exponent that may be missing, with its value. -/
inductive OptionalExponent : List Char → Int → Prop
  | none : OptionalExponent [] 0
  | plus {e : Char} {sign ds : List Char} : e = 'e' ∨ e = 'E' → sign = [] ∨ sign = ['+'] → ds ≠ [] →
      AllDigits ds → OptionalExponent (e :: (sign ++ ds)) (digitsValue ds)
  | minus {e : Char} {ds : List Char} : e = 'e' ∨ e = 'E' → ds ≠ [] → AllDigits ds →
      OptionalExponent (e :: '-' :: ds) (-digitsValue ds)

/-- A number in decimal digits, and the number it denotes without its sign. -/
inductive DenotesSize : List Char → ℚ → Prop
  | mk (negative : Bool) {whole f fraction x : List Char} {exponent : Int} : IntegerPart whole →
      OptionalFraction f fraction → OptionalExponent x exponent →
      DenotesSize (minusSign negative ++ (whole ++ (f ++ x)))
        ((digitsValue whole + digitsValue fraction / 10 ^ fraction.length) * 10 ^ exponent)

/-! ## Reading -/

theorem OptionalExponent.endsFloat {x : List Char} {v : Int} (h : OptionalExponent x v) : EndsFloat v x := by
  have hLetter : ∀ {e : Char}, e = 'e' ∨ e = 'E' → e.isDigit = false ∧ e ≠ '.' := by
    rintro e (rfl | rfl) <;> exact ⟨rfl, by decide⟩
  cases h with
  | none => exact ⟨rfl, by simp [StopsAt], by simp⟩
  | @plus e sign ds he hSign hNonempty hDigits =>
    obtain ⟨hStops, hPoint⟩ := hLetter he
    have hSplit : splitSign (sign ++ ds) = (false, ds) := by
      rcases hSign with rfl | rfl
      · have hPlain := splitSign_digits hNonempty hDigits []
        rwa [List.append_nil] at hPlain
      · rfl
    refine ⟨?_, by simpa [StopsAt] using hStops, by simpa using hPoint⟩
    rw [readExponent?, if_pos he, hSplit]
    simp only [natural?_of_digits hNonempty hDigits]
    rfl
  | @minus e ds he hNonempty hDigits =>
    obtain ⟨hStops, hPoint⟩ := hLetter he
    refine ⟨?_, by simpa [StopsAt] using hStops, by simpa using hPoint⟩
    rw [readExponent?, if_pos he]
    simp only [splitSign, natural?_of_digits hNonempty hDigits]
    rfl

theorem Decimal.ofText?_parts (negative : Bool) {whole f fraction x : List Char} {exponent : Int}
    (hWhole : IntegerPart whole) (hFraction : OptionalFraction f fraction) (hExponent : OptionalExponent x exponent) :
    Decimal.ofText? (minusSign negative ++ (whole ++ (f ++ x))) =
      some ⟨negative, digitsValue (whole ++ fraction), exponent - fraction.length⟩ := by
  obtain ⟨hNonempty, hDigits⟩ := hWhole.allDigits
  cases hFraction with
  | none =>
    rw [List.nil_append, Decimal.ofText?_plain negative hNonempty hDigits hExponent.endsFloat]
    simp
  | digits _ hAll => exact Decimal.ofText?_pointed negative hNonempty hDigits hAll hExponent.endsFloat

/-- The number that a decimal stands for without its sign. -/
def Decimal.size (d : Decimal) : ℚ :=
  d.coefficient * 10 ^ d.exponent

theorem DenotesSize.decimal {text : List Char} {size : ℚ} (h : DenotesSize text size) :
    ∃ d, Decimal.ofText? text = some d ∧ d.size = size := by
  cases h with
  | @mk negative whole f fraction x exponent hWhole hFraction hExponent =>
    refine ⟨_, Decimal.ofText?_parts negative hWhole hFraction hExponent, ?_⟩
    have hTen : (10 : ℚ) ≠ 0 := by decide
    have hPower : (10 : ℚ) ^ fraction.length ≠ 0 := pow_ne_zero _ hTen
    have hCast : ((Nat.pow 10 fraction.length : Nat) : ℚ) = 10 ^ fraction.length := by
      rw [Nat.pow_eq, Nat.cast_pow]
      rfl
    rw [Decimal.size, digitsValue_append, zpow_sub₀ hTen, zpow_natCast]
    push_cast
    rw [hCast]
    field_simp

/-- A text denotes one size only. -/
theorem DenotesSize.unique {text : List Char} {size size' : ℚ} (h : DenotesSize text size)
    (h' : DenotesSize text size') : size = size' := by
  obtain ⟨d, hRead, rfl⟩ := h.decimal
  obtain ⟨d', hRead', rfl⟩ := h'.decimal
  rw [hRead] at hRead'
  cases hRead'
  rfl

theorem FractionText.optional {f : List Char} (h : FractionText f) : ∃ fraction, OptionalFraction f fraction := by
  obtain ⟨hNonempty, hDigits⟩ := h
  exact ⟨_, .digits hNonempty hDigits⟩

theorem ExponentText.optional {x : List Char} (h : ExponentText x) : ∃ exponent, OptionalExponent x exponent := by
  obtain ⟨hLetter, hSign, hNonempty, hDigits⟩ := h
  rcases hSign with rfl | rfl | rfl
  · exact ⟨_, .plus hLetter (.inl rfl) hNonempty hDigits⟩
  · exact ⟨_, .plus hLetter (.inr rfl) hNonempty hDigits⟩
  · exact ⟨_, .minus hLetter hNonempty hDigits⟩

theorem FloatText.exists_size {text : List Char} (h : FloatText text) : ∃ size, DenotesSize text size := by
  have hParts : ∃ i f fraction x exponent, text = i ++ (f ++ x) ∧ IntText i ∧ OptionalFraction f fraction ∧
      OptionalExponent x exponent := by
    cases h with
    | fraction hInt hFraction =>
      obtain ⟨fraction, hOptional⟩ := hFraction.optional
      exact ⟨_, _, fraction, [], 0, by simp, hInt, hOptional, .none⟩
    | exponent hInt hExponent =>
      obtain ⟨exponent, hOptional⟩ := hExponent.optional
      exact ⟨_, [], [], _, exponent, rfl, hInt, .none, hOptional⟩
    | both hInt hFraction hExponent =>
      obtain ⟨fraction, hFraction⟩ := hFraction.optional
      obtain ⟨exponent, hExponent⟩ := hExponent.optional
      exact ⟨_, _, fraction, _, exponent, rfl, hInt, hFraction, hExponent⟩
  obtain ⟨i, f, fraction, x, exponent, rfl, hInt, hFraction, hExponent⟩ := hParts
  cases hInt with
  | plain hWhole => exact ⟨_, .mk false hWhole hFraction hExponent⟩
  | negative hWhole => exact ⟨_, .mk true hWhole hFraction hExponent⟩

/-! ## Numbers that are not finite -/

namespace Binary64

theorem cast_overflowBound : (overflowBound : ℚ) = 2 ^ 1024 - 2 ^ 970 := by
  have hCast : ∀ n, ((Nat.pow 2 n : Nat) : ℚ) = 2 ^ n := Nat.cast_pow 2
  have hSum : ∀ {m n}, overflowBound + Nat.pow 2 m = Nat.pow 2 n → (overflowBound : ℚ) = 2 ^ n - 2 ^ m := by
    intro m n h
    rw [eq_sub_iff_add_eq, ← hCast n, ← h, Nat.cast_add, hCast]
  exact hSum (by decide +kernel)

theorem size_lt_iff (d : Decimal) (n : Nat) :
    d.size < n ↔ d.coefficient * Nat.pow 10 d.exponent.toNat < n * Nat.pow 10 (-d.exponent).toNat := by
  have hTen : (10 : ℚ) ≠ 0 := by decide
  have hPower : (0 : ℚ) < 10 ^ (-d.exponent).toNat := pow_pos (by decide) _
  have hExponent : (10 : ℚ) ^ d.exponent = 10 ^ d.exponent.toNat / 10 ^ (-d.exponent).toNat := by
    conv_lhs => rw [← Int.toNat_sub_toNat_neg d.exponent]
    rw [zpow_sub₀ hTen, zpow_natCast, zpow_natCast]
  rw [Decimal.size, hExponent, ← mul_div_assoc, div_lt_iff₀ hPower]
  exact_mod_cast Iff.rfl

theorem isFinite_ofDecimal_iff (d : Decimal) : (ofDecimal d).isFinite = true ↔ d.size < 2 ^ 1024 - 2 ^ 970 := by
  have hInfinity := magnitudeOfDecimal_eq_infinity_iff d.coefficient d.exponent
  have hLargest := magnitudeOfDecimal_le d.coefficient d.exponent
  rw [← cast_overflowBound, size_lt_iff, ← Nat.not_le, ← hInfinity, isFinite, ofDecimal, decide_eq_true_eq]
  exact ⟨Nat.ne_of_lt, Nat.lt_of_le_of_ne hLargest⟩

end Binary64

/-- Every number that is written can be read, and reads as finite if it is below the bound. -/
theorem DenotesSize.reads {text : List Char} {size : ℚ} (h : DenotesSize text size) :
    ∃ x, Binary64.ofText? text = some x ∧ (x.isFinite = true ↔ size < 2 ^ 1024 - 2 ^ 970) := by
  obtain ⟨d, hRead, rfl⟩ := h.decimal
  exact ⟨_, by rw [Binary64.ofText?, hRead, Option.map_some], Binary64.isFinite_ofDecimal_iff d⟩

end GraphQLSyntax
