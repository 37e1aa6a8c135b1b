import GraphQLSyntax.Number.FloatText
import GraphQLSyntax.Proofs.Number.Shortest

/-!
# Numbers read back as they were written
-/

set_option autoImplicit false

namespace GraphQLSyntax

def minusSign (negative : Bool) : List Char := if negative then ['-'] else []

theorem splitSign_minusSign (negative : Bool) {ds : List Char} (hNonempty : ds ≠ [])
    (hDigits : AllDigits ds) (rest : List Char) :
    splitSign (minusSign negative ++ (ds ++ rest)) = (negative, ds ++ rest) := by
  cases negative with
  | true => rfl
  | false => exact splitSign_digits hNonempty hDigits rest

theorem IntegerPart.intText {ds : List Char} (h : IntegerPart ds) (negative : Bool) :
    IntText (minusSign negative ++ ds) := by
  cases negative with
  | true => exact .negative h
  | false => exact .plain h

/-! ## Integers -/

theorem toList_toString (v : Int) :
    (toString v).toList = minusSign (decide (v < 0)) ++ Nat.toDigits 10 v.natAbs := by
  rw [Int.toString_eq_repr, Int.repr_eq_if]
  by_cases hv : 0 ≤ v
  · have hAbs : v.toNat = v.natAbs := by omega
    have hSign : decide (v < 0) = false := by simpa using hv
    rw [if_pos hv, Nat.toList_repr, hAbs, hSign]
    rfl
  · have hAbs : (-v).toNat = v.natAbs := by omega
    have hSign : decide (v < 0) = true := by simpa using hv
    rw [if_neg hv, String.toList_append, Nat.toList_repr, hAbs, hSign]
    rfl

theorem intText_toString (v : Int) : IntText (toString v).toList := by
  rw [toList_toString]
  exact (integerPart_toDigits _).intText _

theorem splitSign_toString (v : Int) :
    splitSign (toString v).toList = (decide (v < 0), Nat.toDigits 10 v.natAbs) := by
  have hSplit := splitSign_minusSign (decide (v < 0)) Nat.toDigits_ne_nil (allDigits_toDigits v.natAbs) []
  rwa [List.append_nil, ← toList_toString] at hSplit

/-- The sign of a number with its size is the number. -/
theorem signed_natAbs (v : Int) : (if decide (v < 0) = true then -(v.natAbs : Int) else v.natAbs) = v := by
  split
  · rename_i hNegative
    simp at hNegative
    omega
  · rename_i hNegative
    simp at hNegative
    omega

/-! ## Exponents -/

theorem readExponent?_toString (v : Int) : readExponent? ('e' :: (toString v).toList) = some v := by
  have hDigits : natural? (Nat.toDigits 10 v.natAbs) = some v.natAbs := by
    rw [natural?_of_digits Nat.toDigits_ne_nil (allDigits_toDigits _), digitsValue_toDigits]
  rw [readExponent?, if_pos (.inl rfl), splitSign_toString]
  simp only [hDigits]
  rw [signed_natAbs]

theorem exponentText_toString (v : Int) : ExponentText ('e' :: (toString v).toList) := by
  rw [toList_toString]
  refine .mk (.inl rfl) ?_ Nat.toDigits_ne_nil (allDigits_toDigits _)
  cases decide (v < 0) with
  | true => exact .inr (.inr rfl)
  | false => exact .inl rfl

/-- What can stand after the digits of a float, and the exponent that is read there. -/
structure EndsFloat (v : Int) (rest : List Char) : Prop where
  reads : readExponent? rest = some v
  stops : StopsAt Char.isDigit rest
  noPoint : rest.head? ≠ some '.'

/-- What is written after the digits of a float: nothing, or an exponent that is written as a number. -/
inductive Scaled : Int → List Char → Prop
  | none : Scaled 0 []
  | exponent (v : Int) : Scaled v ('e' :: (toString v).toList)

theorem Scaled.endsFloat {v : Int} {rest : List Char} (h : Scaled v rest) : EndsFloat v rest := by
  cases h with
  | none => exact ⟨rfl, by simp [StopsAt], by simp⟩
  | exponent => exact ⟨readExponent?_toString v, by simp [StopsAt], by simp⟩

/-! ## Decimals -/

section

variable {whole fraction rest : List Char} {v : Int}

theorem Decimal.ofText?_pointed (negative : Bool) (hNonempty : whole ≠ []) (hWhole : AllDigits whole)
    (hFraction : AllDigits fraction) (hRest : EndsFloat v rest) :
    Decimal.ofText? (minusSign negative ++ (whole ++ '.' :: (fraction ++ rest))) =
      some ⟨negative, digitsValue (whole ++ fraction), v - fraction.length⟩ := by
  obtain ⟨hReads, hStops, -⟩ := hRest
  have hPoint : StopsAt Char.isDigit ('.' :: (fraction ++ rest)) := by simp [StopsAt]
  simp only [Decimal.ofText?, splitSign_minusSign negative hNonempty hWhole,
    takeWhile_append_stop hWhole hPoint, dropWhile_append_stop hWhole hPoint, List.head?_cons,
    List.drop_one, List.tail_cons, takeWhile_append_stop hFraction hStops,
    dropWhile_append_stop hFraction hStops, if_true, hNonempty, false_and, if_false, hReads,
    Option.map_some]

theorem Decimal.ofText?_plain (negative : Bool) (hNonempty : whole ≠ []) (hWhole : AllDigits whole)
    (hRest : EndsFloat v rest) :
    Decimal.ofText? (minusSign negative ++ (whole ++ rest)) = some ⟨negative, digitsValue whole, v⟩ := by
  obtain ⟨hReads, hStops, hPoint⟩ := hRest
  simp only [Decimal.ofText?, splitSign_minusSign negative hNonempty hWhole,
    takeWhile_append_stop hWhole hStops, dropWhile_append_stop hWhole hStops, hPoint, if_false,
    hNonempty, false_and, hReads, Option.map_some, List.append_nil, List.length_nil]
  simp

/-! ## Floats -/

/-- A literal, with and without a sign, that reads back as a magnitude. -/
def ReadsAs (text : List Char) (magnitude : Nat) : Prop :=
  ∀ negative, FloatText (minusSign negative ++ text) ∧
    Binary64.ofText? (minusSign negative ++ text) = some ⟨negative, magnitude⟩

theorem readsAs_pointed {magnitude : Nat} (hWhole : IntegerPart whole) (hNonempty : fraction ≠ [])
    (hFraction : AllDigits fraction) (hRest : Scaled v rest)
    (h : Binary64.magnitudeOfDecimal (digitsValue (whole ++ fraction)) (v - fraction.length) = magnitude) :
    ReadsAs (whole ++ '.' :: (fraction ++ rest)) magnitude := by
  intro negative
  have hPoint : FractionText ('.' :: fraction) := .mk hNonempty hFraction
  have hInt := hWhole.intText negative
  constructor
  · cases hRest with
    | none => simpa using FloatText.fraction hInt hPoint
    | exponent => simpa using FloatText.both hInt hPoint (exponentText_toString v)
  · obtain ⟨hWholeNonempty, hDigits⟩ := hWhole.allDigits
    rw [Binary64.ofText?, Decimal.ofText?_pointed negative hWholeNonempty hDigits hFraction hRest.endsFloat,
      Option.map_some, Binary64.ofDecimal, h]

theorem readsAs_plain {magnitude : Nat} (hWhole : IntegerPart whole)
    (h : Binary64.magnitudeOfDecimal (digitsValue whole) v = magnitude) :
    ReadsAs (whole ++ 'e' :: (toString v).toList) magnitude := by
  intro negative
  constructor
  · simpa using FloatText.exponent (hWhole.intText negative) (exponentText_toString v)
  · obtain ⟨hNonempty, hDigits⟩ := hWhole.allDigits
    rw [Binary64.ofText?, Decimal.ofText?_plain negative hNonempty hDigits (Scaled.exponent v).endsFloat,
      Option.map_some, Binary64.ofDecimal, h]

end

/-! ## Forms -/

namespace FloatForm

section

variable {c : Char} {cs : List Char} {exponent : Int} {magnitude : Nat}

/-- Zeros stand between the point and the first digit. -/
theorem readsAs_leadingZeros (hc : c.isDigit = true) (hcs : AllDigits cs) (hNegative : exponent < 0)
    (hReads : Binary64.magnitudeOfDecimal (digitsValue (c :: cs)) (exponent - cs.length) = magnitude) :
    ReadsAs (positional ⟨c :: cs, exponent⟩) magnitude := by
  let zeros := List.replicate (-exponent - 1).toNat '0'
  have hAll : AllDigits (c :: cs) := List.forall_mem_cons.mpr ⟨hc, hcs⟩
  have hText : positional ⟨c :: cs, exponent⟩ = ['0'] ++ '.' :: ((zeros ++ c :: cs) ++ []) := by
    simp [positional, hNegative, zeros]
  have hValue : digitsValue (['0'] ++ (zeros ++ c :: cs)) = digitsValue (c :: cs) :=
    (digitsValue_zeros_append 1 _).trans (digitsValue_zeros_append _ _)
  rw [hText]
  refine readsAs_pointed .zero (by simp) ((allDigits_zeros _).append hAll) .none ?_
  rw [hValue, ← hReads]
  congr 1
  simp only [zeros, List.length_append, List.length_replicate, List.length_cons]
  omega

/-- Zeros stand between the last digit and the point. -/
theorem readsAs_trailingZeros (hc : c.isDigit = true) (hFirst : c ≠ '0') (hcs : AllDigits cs)
    (hNegative : ¬exponent < 0) (hShort : (c :: cs).length ≤ exponent.toNat + 1)
    (hReads : Binary64.magnitudeOfDecimal (digitsValue (c :: cs)) (exponent - cs.length) = magnitude) :
    ReadsAs (positional ⟨c :: cs, exponent⟩) magnitude := by
  let zeros := List.replicate (exponent.toNat + 1 - (c :: cs).length) '0'
  have hText : positional ⟨c :: cs, exponent⟩ = (c :: (cs ++ zeros)) ++ '.' :: (['0'] ++ []) := by
    simp only [positional, if_neg hNegative, if_pos hShort]
    simp [zeros]
  have hZeros : c :: (cs ++ zeros) ++ ['0'] =
      (c :: cs) ++ List.replicate (exponent.toNat + 2 - (c :: cs).length) '0' := by
    have hCount : exponent.toNat + 2 - (c :: cs).length =
        exponent.toNat + 1 - (c :: cs).length + 1 := by omega
    rw [hCount, List.replicate_succ']
    simp [zeros]
  rw [hText]
  refine readsAs_pointed (.digits hc hFirst (hcs.append (allDigits_zeros _))) (by simp)
    (allDigits_zeros 1) .none ?_
  rw [hZeros, digitsValue_append_zeros, Binary64.magnitudeOfDecimal_mul_pow, ← hReads]
  congr 1
  simp only [List.length_cons, List.length_nil] at hShort ⊢
  omega

/-- The point stands between two of the digits. -/
theorem readsAs_innerPoint (hc : c.isDigit = true) (hFirst : c ≠ '0') (hcs : AllDigits cs)
    (hNegative : ¬exponent < 0) (hLong : ¬(c :: cs).length ≤ exponent.toNat + 1)
    (hReads : Binary64.magnitudeOfDecimal (digitsValue (c :: cs)) (exponent - cs.length) = magnitude) :
    ReadsAs (positional ⟨c :: cs, exponent⟩) magnitude := by
  let whole := exponent.toNat
  have hText : positional ⟨c :: cs, exponent⟩ = (c :: cs.take whole) ++ '.' :: (cs.drop whole ++ []) := by
    simp only [positional, if_neg hNegative, if_neg hLong]
    simp [whole]
  have hLength : whole < cs.length := by
    simp only [List.length_cons] at hLong
    omega
  rw [hText]
  refine readsAs_pointed (.digits hc hFirst fun d hd => hcs d (List.mem_of_mem_take hd)) ?_
    (fun d hd => hcs d (List.mem_of_mem_drop hd)) .none ?_
  · intro hNil
    have hZero := congrArg List.length hNil
    rw [List.length_drop, List.length_nil] at hZero
    omega
  · rw [List.cons_append, List.take_append_drop, ← hReads]
    congr 1
    rw [List.length_drop]
    omega

end

theorem positional_readsAs {s : Significant} {magnitude : Nat} (h : s.Denotes magnitude) :
    ReadsAs (positional s) magnitude := by
  cases h with
  | @mk c cs exponent _ hc hFirst hcs hReads =>
    by_cases hNegative : exponent < 0
    · exact readsAs_leadingZeros hc hcs hNegative hReads
    · by_cases hShort : (c :: cs).length ≤ exponent.toNat + 1
      · exact readsAs_trailingZeros hc hFirst hcs hNegative hShort hReads
      · exact readsAs_innerPoint hc hFirst hcs hNegative hShort hReads

theorem scientific_readsAs {s : Significant} {magnitude : Nat} (h : s.Denotes magnitude) :
    ReadsAs (scientific false s) magnitude := by
  cases h with
  | @mk c cs exponent _ hc hFirst hcs hReads =>
    have hWhole : IntegerPart [c] := .digits hc hFirst fun d hd => nomatch hd
    cases cs with
    | nil =>
      have hText : scientific false ⟨[c], exponent⟩ = [c] ++ 'e' :: (toString exponent).toList := by
        simp [scientific]
      rw [hText]
      refine readsAs_plain hWhole ?_
      simpa using hReads
    | cons d ds =>
      have hText : scientific false ⟨c :: d :: ds, exponent⟩ =
          [c] ++ '.' :: ((d :: ds) ++ 'e' :: (toString exponent).toList) := by
        simp [scientific]
      rw [hText]
      exact readsAs_pointed hWhole (by simp) hcs (.exponent exponent) hReads

/-- The written form of a finite number is a literal that reads back as the number. -/
theorem write_canonical {x : Binary64} (h : x.isFinite = true) :
    FloatText (canonical.write x).toList ∧ Binary64.ofText? (canonical.write x).toList = some x := by
  have hReads : ∃ text, (canonical.write x).toList = minusSign x.negative ++ text ∧
      ReadsAs text x.magnitude := by
    by_cases hZero : x.magnitude = 0
    · refine ⟨['0', '.', '0'], ?_, ?_⟩
      · simp only [write, if_pos hZero, String.toList_ofList]
        rfl
      · exact readsAs_pointed .zero (by simp) (allDigits_zeros 1) .none hZero.symm
    · have hFinite : x.magnitude < Binary64.infinityMagnitude := by
        simpa [Binary64.isFinite] using h
      have hDenotes := Binary64.shortest_denotes (Nat.pos_of_ne_zero hZero) hFinite canonical.tie
      generalize hShortest : Binary64.shortest canonical.tie x.magnitude = s at hDenotes
      refine ⟨if canonical.positionalFrom ≤ s.exponent ∧ s.exponent < canonical.positionalBelow then
        positional s else scientific false s, ?_, ?_⟩
      · simp only [write, if_neg hZero, String.toList_ofList, hShortest]
        rfl
      · split
        · exact positional_readsAs hDenotes
        · exact scientific_readsAs hDenotes
  obtain ⟨text, hText, hReads⟩ := hReads
  rw [hText]
  exact hReads x.negative

end FloatForm

end GraphQLSyntax
