import GraphQLSyntax.Proofs.Lexing.Adjacent
import GraphQLSyntax.Proofs.Lexing.Measures
import GraphQLSyntax.Proofs.Number.Digits

/-!
# The longest number at the front of a text

A scan that finds a number finds the longest one there is. It finds none where the text starts like a number and goes on
as no number does, and then it covers just what is wrong: a minus without digits, a zero with the digits behind it, or
all up to an exponent that has no digits.
-/

set_option autoImplicit false

namespace GraphQLSyntax

/-- The longest prefix of a text that is in a language. -/
def LongestPrefix (p : List Char → Prop) (t text : List Char) : Prop :=
  t <+: text ∧ p t ∧ ∀ u, u <+: text → p u → u.length ≤ t.length

def IsNumber (t : List Char) : Prop := IntText t ∨ FloatText t

/-- A sign in front of a text, or nothing where none stands. -/
def OptionalSign (signs sign rest : List Char) : Prop :=
  (∃ c ∈ signs, sign = [c]) ∨ (sign = [] ∧ ∀ c ∈ rest.head?, c ∉ signs)

/-- The letter of an exponent, and a sign if there is one, with no digit behind them. -/
inductive DanglingExponent : List Char → List Char → Prop
  | mk {e : Char} {sign rest : List Char} : e = 'e' ∨ e = 'E' → OptionalSign ['+', '-'] sign rest →
    StopsAt Char.isDigit rest → DanglingExponent (e :: sign) rest

/-- A run at the front of a text that is no number because of what it ends with, and what follows the run. -/
inductive SpoiltNumber : NumberFault → List Char → List Char → Prop
  | missingDigits {minus rest : List Char} : OptionalSign ['-'] minus rest → StopsAt Char.isDigit rest →
    SpoiltNumber .missingDigits minus rest
  | leadingZero {minus ds rest : List Char} : minus = [] ∨ minus = ['-'] → ds ≠ [] → AllDigits ds →
    StopsAt Char.isDigit rest → SpoiltNumber .leadingZero (minus ++ '0' :: ds) rest
  | missingExponentDigits {i f x rest : List Char} : IntText i → f = [] ∨ FractionText f →
    DanglingExponent x rest → SpoiltNumber .missingExponentDigits (i ++ (f ++ x)) rest

theorem NumberText.isNumber {k : NumberKind} {t : List Char} (h : NumberText k t) : IsNumber t := by
  cases k with
  | int => exact .inl h
  | float => exact .inr h

theorem IsNumber.numberText {t : List Char} (h : IsNumber t) : ∃ k, NumberText k t := by
  rcases h with hInt | hFloat
  · exact ⟨.int, hInt⟩
  · exact ⟨.float, hFloat⟩

/-- No text is a number of both kinds, as the scan would find both. -/
theorem NumberText.kind_eq {k k' : NumberKind} {t : List Char} (h : NumberText k t) (h' : NumberText k' t) : k = k' := by
  have hEnds : EndsNumber [] := fun c hc => nomatch hc
  have hScan := scanNumber_append h hEnds
  rw [scanNumber_append h' hEnds] at hScan
  cases hScan
  rfl

theorem NumberText.kind_eq_iff {k : NumberKind} {t : List Char} (h : NumberText k t) (k' : NumberKind) :
    k = k' ↔ NumberText k' t := by
  constructor
  · rintro rfl
    exact h
  · exact h.kind_eq

theorem classifyNumber_eq_some_iff {k : NumberKind} {text : List Char} :
    classifyNumber text = some k ↔ NumberText k text := by
  constructor
  · intro h
    unfold classifyNumber at h
    split at h
    · rename_i kind n hScan
      split at h
      · rename_i hLength
        cases h
        obtain ⟨t, rest, rfl, rfl, hNumber⟩ := scanNumber_sound hScan
        have hRest : rest = [] := by
          rw [List.length_append, Nat.left_eq_add] at hLength
          exact List.length_eq_zero_iff.mp hLength
        rwa [hRest, List.append_nil]
      · cases h
    · cases h
  · intro h
    have hEnds : EndsNumber [] := fun c hc => nomatch hc
    have hScan := scanNumber_append h hEnds
    rw [List.append_nil] at hScan
    rw [classifyNumber, hScan]
    exact if_pos rfl

/-! ## Bytes

What numbers are written with takes one byte for each character. -/

theorem utf8Size_of_isDigit {c : Char} (h : c.isDigit = true) : c.utf8Size = 1 := by
  have hCode : 48 ≤ c.val ∧ c.val ≤ 57 := by simpa [Char.isDigit] using h
  rw [Char.utf8Size_eq_one_iff]
  exact UInt32.le_trans hCode.2 (by decide)

theorem AllDigits.byteLength {ds : List Char} (h : AllDigits ds) : byteLength ds = ds.length :=
  byteLength_eq_length fun c hc => utf8Size_of_isDigit (h c hc)

theorem IntText.byteLength {i : List Char} (h : IntText i) : byteLength i = i.length := by
  have hPart : ∀ {cs : List Char}, IntegerPart cs → GraphQLSyntax.byteLength cs = cs.length :=
    fun h => h.allDigits.2.byteLength
  cases h with
  | plain h => exact hPart h
  | @negative cs h =>
    have hMinus := byteLength_append ['-'] cs
    rw [hPart h] at hMinus
    rw [← List.singleton_append, hMinus, List.length_append]
    rfl

theorem FractionText.byteLength {f : List Char} (h : FractionText f) : byteLength f = f.length := by
  cases h with
  | @mk ds _ hDigits =>
    rw [← List.singleton_append, byteLength_append, hDigits.byteLength, List.length_append]
    rfl

/-- The letter of an exponent and the sign after it. -/
theorem byteLength_exponentSign {e : Char} {sign : List Char} (hLetter : e = 'e' ∨ e = 'E')
    (hSign : sign = [] ∨ sign = ['+'] ∨ sign = ['-']) : byteLength (e :: sign) = (e :: sign).length := by
  rcases hLetter with rfl | rfl <;> rcases hSign with rfl | rfl | rfl <;> decide

theorem ExponentText.byteLength {x : List Char} (h : ExponentText x) : byteLength x = x.length := by
  cases h with
  | @mk e sign ds hLetter hSign _ hDigits =>
    rw [← List.cons_append, byteLength_append, byteLength_exponentSign hLetter hSign, hDigits.byteLength,
      List.length_append]

theorem TailText.byteLength {k : NumberKind} {tail : List Char} (h : TailText k tail) : byteLength tail = tail.length := by
  cases k with
  | int =>
    cases h
    rfl
  | float =>
    rcases h with hFraction | hExponent | ⟨f, x, rfl, hFraction, hExponent⟩
    · exact hFraction.byteLength
    · exact hExponent.byteLength
    · rw [byteLength_append, hFraction.byteLength, hExponent.byteLength, List.length_append]

theorem NumberText.byteLength {k : NumberKind} {t : List Char} (h : NumberText k t) : byteLength t = t.length := by
  obtain ⟨i, tail, rfl, hInt, hTail⟩ := h.split
  rw [byteLength_append, hInt.byteLength, hTail.byteLength, List.length_append]

theorem OptionalSign.cases_plusMinus {sign rest : List Char} (h : OptionalSign ['+', '-'] sign rest) :
    sign = [] ∨ sign = ['+'] ∨ sign = ['-'] := by
  rcases h with ⟨c, hc, rfl⟩ | ⟨rfl, -⟩
  · simpa using hc
  · exact .inl rfl

theorem SpoiltNumber.byteLength {fault : NumberFault} {run rest : List Char} (h : SpoiltNumber fault run rest) :
    byteLength run = run.length := by
  cases h with
  | missingDigits hMinus =>
    rcases hMinus with ⟨c, hc, rfl⟩ | ⟨rfl, -⟩
    · obtain rfl := List.mem_singleton.mp hc
      decide
    · rfl
  | @leadingZero minus ds _ hMinus _ hDigits =>
    have hZero : AllDigits ('0' :: ds) := List.forall_mem_cons.mpr ⟨rfl, hDigits⟩
    rw [byteLength_append, hZero.byteLength, List.length_append]
    rcases hMinus with rfl | rfl <;> rfl
  | @missingExponentDigits i f x _ hInt hFraction hExponent =>
    obtain ⟨hLetter, hSign, -⟩ := hExponent
    rw [byteLength_append, byteLength_append, hInt.byteLength, byteLength_exponentSign hLetter hSign.cases_plusMinus,
      List.length_append, List.length_append]
    rcases hFraction with rfl | hFraction
    · rfl
    · rw [hFraction.byteLength]

/-! ## The scan goes no less far than any number -/

section

variable {k kind : NumberKind} {length n : Nat} {rest : List Char}

theorem length_le_digitRun {ds : List Char} (h : AllDigits ds) (rest : List Char) :
    ds.length ≤ digitRun (ds ++ rest) := by
  rw [digitRun, List.takeWhile_append_of_pos h, List.length_append]
  exact Nat.le_add_right _ _

/-- A digit is no sign. -/
theorem signLength_of_digits {sign ds : List Char} (hSign : sign = [] ∨ sign = ['+'] ∨ sign = ['-'])
    (hNonempty : ds ≠ []) (hDigits : AllDigits ds) (rest : List Char) :
    sign.length = if (sign ++ (ds ++ rest)).head? = some '+' ∨ (sign ++ (ds ++ rest)).head? = some '-' then 1 else 0 := by
  obtain ⟨d, ds, rfl⟩ := List.exists_cons_of_ne_nil hNonempty
  have hDigit : d.isDigit = true := hDigits d List.mem_cons_self
  have hPlus : d ≠ '+' := by rintro rfl; cases hDigit
  have hMinus : d ≠ '-' := by rintro rfl; cases hDigit
  rcases hSign with rfl | rfl | rfl <;> simp [hPlus, hMinus]

theorem ExponentText.length_le {x : List Char} (h : ExponentText x)
    (hScan : scanExponent kind length (x ++ rest) = .literal k n) : length + x.length ≤ n := by
  cases h with
  | @mk e sign ds hLetter hSign hNonempty hDigits =>
    have hRun := length_le_digitRun hDigits rest
    rw [List.cons_append, List.append_assoc,
      scanExponent_signed hLetter (signLength_of_digits hSign hNonempty hDigits rest)] at hScan
    split at hScan
    · cases hScan
    · cases hScan
      rw [List.length_cons, List.length_append]
      omega

theorem FractionText.length_le {f : List Char} (h : FractionText f)
    (hScan : scanFraction length (f ++ rest) = .literal k n) : length + f.length ≤ n := by
  cases h with
  | @mk ds hNonempty hDigits =>
    have hRun := length_le_digitRun hDigits rest
    have hSome : 0 < ds.length := List.length_pos_iff.mpr hNonempty
    rw [List.cons_append, scanFraction, if_pos ⟨rfl, by omega⟩] at hScan
    have hLength := scanExponent_length_le hScan
    rw [List.length_cons]
    omega

theorem TailText.length_le {k' : NumberKind} {tail : List Char} (h : TailText k' tail)
    (hScan : scanFraction length (tail ++ rest) = .literal k n) : length + tail.length ≤ n := by
  cases k' with
  | int =>
    cases h
    exact scanFraction_length_le hScan
  | float =>
    rcases h with hFraction | hExponent | ⟨f, x, rfl, hFraction, hExponent⟩
    · exact hFraction.length_le hScan
    · obtain ⟨c, cs, hText, hPoint⟩ := hExponent.head_ne rest
      have hPlain : scanFraction length (tail ++ rest) = scanExponent .int length (tail ++ rest) := by
        rw [hText, scanFraction, if_neg fun hc => hPoint hc.1]
      exact hExponent.length_le (hPlain ▸ hScan)
    · rw [List.append_assoc, scanFraction_append hFraction hExponent.stops] at hScan
      have hLength := hExponent.length_le hScan
      rw [List.length_append]
      omega

/-- A scan that finds a number goes no less far than any number at the front of the text. -/
theorem NumberText.length_le {k' : NumberKind} {t : List Char} (h : NumberText k' t)
    (hScan : scanNumber (t ++ rest) = .literal k n) : t.length ≤ n := by
  obtain ⟨i, tail, rfl, hInt, hTail⟩ := h.split
  obtain ⟨sign, cs, rfl, hPart, hSign⟩ := hInt.sign_split
  have hLength := hSign (tail ++ rest)
  rw [List.append_assoc, List.append_assoc] at hScan
  rw [List.length_append, List.length_append]
  cases hPart with
  | zero =>
    rw [List.singleton_append] at hScan hLength
    rw [scanNumber_signed hLength, if_pos rfl] at hScan
    split at hScan
    · exact hTail.length_le hScan
    · cases hScan
  | @digits c ds hDigit hZero hDigits =>
    rw [List.cons_append] at hScan hLength
    rw [scanNumber_signed hLength, if_neg hZero, if_pos hDigit] at hScan
    rw [List.length_cons]
    cases k' with
    | int =>
      -- The number may be longer than the one in question.
      cases hTail
      have hRun := length_le_digitRun hDigits ([] ++ rest)
      have hFar := scanFraction_length_le hScan
      rw [List.length_nil]
      omega
    | float =>
      rw [digitRun_append hDigits (stops_of_floatTail hTail rest), List.drop_left] at hScan
      have hFar := hTail.length_le hScan
      omega

end

/-! ## What spoils a number -/

section

variable {kind : NumberKind} {fault : NumberFault} {length n : Nat} {cs rest : List Char}

/-- The scan tells by the first character whether there is a sign. -/
theorem OptionalSign.length_eq {signs sign : List Char} (h : OptionalSign signs sign rest) {p : Prop} [Decidable p]
    (hp : p ↔ ∃ c ∈ signs, (sign ++ rest).head? = some c) : sign.length = if p then 1 else 0 := by
  rcases h with ⟨c, hc, rfl⟩ | ⟨rfl, hRest⟩
  · rw [if_pos (hp.mpr ⟨c, hc, rfl⟩), List.length_singleton]
  · rw [if_neg fun h => ?_, List.length_nil]
    obtain ⟨c, hc, hHead⟩ := hp.mp h
    exact hRest c hHead hc

theorem OptionalSign.cases_minus {minus : List Char} (h : OptionalSign ['-'] minus rest) :
    minus = [] ∨ minus = ['-'] := by
  rcases h with ⟨c, hc, rfl⟩ | ⟨rfl, -⟩
  · exact .inr (by simpa using hc)
  · exact .inl rfl

theorem exists_optionalSign (signs cs : List Char) :
    ∃ sign rest, cs = sign ++ rest ∧ OptionalSign signs sign rest := by
  cases cs with
  | nil => exact ⟨[], [], rfl, .inr ⟨rfl, fun c hc => nomatch hc⟩⟩
  | cons c cs =>
    by_cases hc : c ∈ signs
    · exact ⟨[c], cs, rfl, .inl ⟨c, hc, rfl⟩⟩
    · refine ⟨[], c :: cs, rfl, .inr ⟨rfl, ?_⟩⟩
      rintro d hd
      cases hd
      exact hc

theorem stopsAt_of_digitRun (h : digitRun cs = 0) : StopsAt Char.isDigit cs := by
  cases cs with
  | nil => exact fun c hc => nomatch hc
  | cons c cs =>
    rintro d hd
    cases hd
    cases hDigit : c.isDigit with
    | false => rfl
    | true =>
      rw [digitRun_cons hDigit] at h
      cases h

theorem scanExponent_fault_iff : scanExponent kind length cs = .fault fault n ↔
    ∃ x rest, cs = x ++ rest ∧ DanglingExponent x rest ∧ fault = .missingExponentDigits ∧ n = length + x.length := by
  constructor
  · intro h
    cases cs with
    | nil => cases h
    | cons e cs =>
      by_cases hLetter : e = 'e' ∨ e = 'E'
      · obtain ⟨sign, rest, rfl, hSign⟩ := exists_optionalSign ['+', '-'] cs
        rw [scanExponent_signed hLetter (hSign.length_eq (by simp))] at h
        split at h
        · rename_i hDigits
          cases h
          refine ⟨e :: sign, rest, rfl, .mk hLetter hSign (stopsAt_of_digitRun hDigits), rfl, ?_⟩
          rw [List.length_cons]
          omega
        · cases h
      · rw [scanExponent, if_neg hLetter] at h
        cases h
  · rintro ⟨x, rest, rfl, hDangling, rfl, rfl⟩
    cases hDangling with
    | @mk e sign _ hLetter hSign hStops =>
      rw [List.cons_append, scanExponent_signed hLetter (hSign.length_eq (by simp)),
        if_pos (digitRun_eq_zero hStops), List.length_cons]
      congr 1
      omega

theorem DanglingExponent.stops {x : List Char} (h : DanglingExponent x rest) :
    StopsAt Char.isDigit (x ++ rest) ∧ ∀ c ∈ (x ++ rest).head?, c ≠ '.' := by
  obtain ⟨hLetter, -, -⟩ := h
  constructor
  · rintro c hc
    cases hc
    rcases hLetter with rfl | rfl <;> rfl
  · rintro c hc
    cases hc
    rcases hLetter with rfl | rfl <;> decide

theorem scanFraction_fault_iff : scanFraction length cs = .fault fault n ↔
    ∃ f x rest, cs = f ++ (x ++ rest) ∧ (f = [] ∨ FractionText f) ∧ DanglingExponent x rest ∧
      fault = .missingExponentDigits ∧ n = length + f.length + x.length := by
  constructor
  · intro h
    cases cs with
    | nil => cases h
    | cons c cs =>
      by_cases hPoint : c = '.' ∧ digitRun cs ≠ 0
      · rw [scanFraction, if_pos hPoint, scanExponent_fault_iff] at h
        obtain ⟨x, rest, hText, hDangling, rfl, rfl⟩ := h
        refine ⟨'.' :: cs.take (digitRun cs), x, rest, ?_,
          .inr (.mk (take_digitRun_ne_nil hPoint.2) (allDigits_take cs)), hDangling, rfl, ?_⟩
        · rw [← hText, hPoint.1, List.cons_append, List.take_append_drop]
        · rw [List.length_cons, length_take_digitRun]
          omega
      · rw [scanFraction, if_neg hPoint, scanExponent_fault_iff] at h
        obtain ⟨x, rest, hText, hDangling, rfl, rfl⟩ := h
        exact ⟨[], x, rest, hText, .inl rfl, hDangling, rfl, rfl⟩
  · rintro ⟨f, x, rest, rfl, hFraction, hDangling, rfl, rfl⟩
    obtain ⟨hStops, hPoint⟩ := hDangling.stops
    rcases hFraction with rfl | hFraction
    · have hText : [] ++ (x ++ rest) = x ++ rest := rfl
      rw [hText]
      have hExponent : scanFraction length (x ++ rest) = scanExponent .int length (x ++ rest) := by
        cases hCons : x ++ rest with
        | nil => rfl
        | cons c cs =>
          rw [hCons] at hPoint
          rw [scanFraction, if_neg fun hc => hPoint c rfl hc.1]
      rw [hExponent, scanExponent_fault_iff]
      exact ⟨x, rest, rfl, hDangling, rfl, rfl⟩
    · rw [scanFraction_append hFraction hStops, scanExponent_fault_iff]
      exact ⟨x, rest, rfl, hDangling, rfl, rfl⟩

theorem stopsAt_drop_digitRun (cs : List Char) : StopsAt Char.isDigit (cs.drop (digitRun cs)) := by
  have hSplit : cs.take (digitRun cs) ++ cs.drop (digitRun cs) = cs.takeWhile Char.isDigit ++ cs.dropWhile Char.isDigit := by
    rw [List.take_append_drop, List.takeWhile_append_dropWhile]
  rw [digitRun, take_length_takeWhile] at hSplit
  rw [digitRun, List.append_cancel_left hSplit]
  exact stopsAt_dropWhile _ _

theorem IntegerPart.intText_of_minus {minus ds : List Char} (h : IntegerPart ds) (hMinus : minus = [] ∨ minus = ['-']) :
    IntText (minus ++ ds) := by
  rcases hMinus with rfl | rfl
  · exact .plain h
  · exact .negative h

/-- What the scan finds wrong is there. -/
theorem SpoiltNumber.of_scanNumber {text : List Char} (h : scanNumber text = .fault fault n) :
    ∃ run rest, text = run ++ rest ∧ SpoiltNumber fault run rest ∧ n = run.length := by
  obtain ⟨minus, cs, rfl, hMinus⟩ := exists_optionalSign ['-'] text
  have hLength := hMinus.length_eq (p := (minus ++ cs).head? = some '-') (by simp)
  cases cs with
  | nil =>
    rw [scanNumber, ← hLength, List.drop_left] at h
    cases h
    exact ⟨minus, [], rfl, .missingDigits hMinus (by simp [StopsAt]), rfl⟩
  | cons c cs =>
    rw [scanNumber_signed hLength] at h
    by_cases hZero : c = '0'
    · subst hZero
      rw [if_pos rfl] at h
      split at h
      · obtain ⟨f, x, rest, rfl, hFraction, hDangling, rfl, rfl⟩ := scanFraction_fault_iff.mp h
        refine ⟨(minus ++ ['0']) ++ (f ++ x), rest, by simp, ?_, by simp; omega⟩
        exact .missingExponentDigits (IntegerPart.zero.intText_of_minus hMinus.cases_minus) hFraction hDangling
      · rename_i hDigits
        cases h
        refine ⟨minus ++ '0' :: cs.take (digitRun cs), cs.drop (digitRun cs), by simp, ?_, ?_⟩
        · exact .leadingZero hMinus.cases_minus (take_digitRun_ne_nil hDigits) (allDigits_take cs)
            (stopsAt_drop_digitRun cs)
        · rw [List.length_append, List.length_cons, length_take_digitRun]
          omega
    · rw [if_neg hZero] at h
      split at h
      · rename_i hDigit
        obtain ⟨f, x, rest, hText, hFraction, hDangling, rfl, rfl⟩ := scanFraction_fault_iff.mp h
        have hPart : IntegerPart (c :: cs.take (digitRun cs)) := .digits hDigit hZero (allDigits_take cs)
        refine ⟨(minus ++ c :: cs.take (digitRun cs)) ++ (f ++ x), rest, ?_, ?_, ?_⟩
        · rw [List.append_assoc, List.append_assoc, List.append_assoc, ← hText, List.cons_append, List.take_append_drop]
        · exact .missingExponentDigits (hPart.intText_of_minus hMinus.cases_minus) hFraction hDangling
        · rw [List.length_append, List.length_append, List.length_append, List.length_cons, length_take_digitRun]
          omega
      · rename_i hDigit
        cases h
        refine ⟨minus, c :: cs, rfl, .missingDigits hMinus ?_, rfl⟩
        rintro d hd
        cases hd
        simpa using hDigit

/-- What is wrong the scan finds. -/
theorem SpoiltNumber.scan {run : List Char} (h : SpoiltNumber fault run rest) :
    scanNumber (run ++ rest) = .fault fault run.length := by
  cases h with
  | missingDigits hMinus hStops =>
    have hLength := hMinus.length_eq (p := (run ++ rest).head? = some '-') (by simp)
    cases rest with
    | nil => rw [scanNumber, ← hLength, List.drop_left]
    | cons c rest =>
      have hDigit : c.isDigit = false := hStops c rfl
      have hZero : c ≠ '0' := by
        rintro rfl
        cases hDigit
      rw [scanNumber_signed hLength, if_neg hZero, if_neg (by simp [hDigit])]
  | @leadingZero minus ds _ hMinus hNonempty hDigits hStops =>
    have hLength : minus.length = if (minus ++ '0' :: (ds ++ rest)).head? = some '-' then 1 else 0 := by
      rcases hMinus with rfl | rfl <;> rfl
    have hRun : digitRun (ds ++ rest) = ds.length := digitRun_append hDigits hStops
    have hSome : ds.length ≠ 0 := by simpa using hNonempty
    rw [List.append_assoc, List.cons_append, scanNumber_signed hLength, if_pos rfl, hRun, if_neg hSome,
      List.length_append, List.length_cons]
    congr 1
    omega
  | @missingExponentDigits i f x _ hInt hFraction hDangling =>
    obtain ⟨minus, cs, rfl, hPart, hSign⟩ := hInt.sign_split
    have hLength := hSign (f ++ (x ++ rest))
    have hStops : StopsAt Char.isDigit (f ++ (x ++ rest)) := by
      rcases hFraction with rfl | hFraction
      · exact hDangling.stops.1
      · exact stops_of_floatTail (.inl hFraction) _
    have hScan : ∀ m, scanFraction m (f ++ (x ++ rest)) =
        .fault .missingExponentDigits (m + f.length + x.length) := fun m =>
      scanFraction_fault_iff.mpr ⟨f, x, rest, rfl, hFraction, hDangling, rfl, rfl⟩
    rw [List.append_assoc, List.append_assoc, List.append_assoc]
    cases hPart with
    | zero =>
      rw [List.singleton_append] at hLength ⊢
      rw [scanNumber_signed hLength, if_pos rfl, if_pos (digitRun_eq_zero hStops), hScan]
      simp only [List.length_append, List.length_singleton, NumberScan.fault.injEq, true_and]
      omega
    | @digits c ds hDigit hZero hDigits =>
      rw [List.cons_append] at hLength ⊢
      rw [scanNumber_signed hLength, if_neg hZero, if_pos hDigit, digitRun_append hDigits hStops, List.drop_left, hScan]
      simp only [List.length_append, List.length_cons, NumberScan.fault.injEq, true_and]
      omega

end

/-- The scan of a text finds the longest number at its front, unless a minus without digits stands there, a zero before
more digits, or a number with an exponent that has no digits. A text that is a number is classified as what it is. -/
theorem scanNumber_longest (text : List Char) :
    (∀ kind n, scanNumber text = .literal kind n → ∃ t, LongestPrefix IsNumber t text ∧ takeBytes? n text = some t ∧
      (kind = .int ↔ IntText t) ∧ (kind = .float ↔ FloatText t)) ∧
    (∀ fault n, scanNumber text = .fault fault n ↔
      ∃ run rest, text = run ++ rest ∧ SpoiltNumber fault run rest ∧ byteLength run = n) ∧
    (classifyNumber text = some .int ↔ IntText text) ∧ (classifyNumber text = some .float ↔ FloatText text) := by
  refine ⟨?_, ?_, classifyNumber_eq_some_iff, classifyNumber_eq_some_iff⟩
  · intro kind n h
    obtain ⟨t, rest, rfl, rfl, hNumber⟩ := scanNumber_sound h
    refine ⟨t, ⟨⟨rest, rfl⟩, hNumber.isNumber, ?_⟩, ?_, ?_, ?_⟩
    · rintro u ⟨more, hText⟩ hu
      obtain ⟨kind', hOther⟩ := hu.numberText
      rw [← hText] at h
      exact hOther.length_le h
    · rw [← hNumber.byteLength, takeBytes?_append]
    · exact hNumber.kind_eq_iff .int
    · exact hNumber.kind_eq_iff .float
  · intro fault n
    constructor
    · intro h
      obtain ⟨run, rest, hText, hSpoilt, rfl⟩ := SpoiltNumber.of_scanNumber h
      exact ⟨run, rest, hText, hSpoilt, hSpoilt.byteLength⟩
    · rintro ⟨run, rest, rfl, hSpoilt, rfl⟩
      rw [hSpoilt.byteLength]
      exact hSpoilt.scan

/-- A float with all of its parts, before a letter that it does not go on with. -/
theorem scanNumber_longest_float :
    scanNumber "-0.50e+7e".toList = .literal .float 8 ∧
      LongestPrefix IsNumber "-0.50e+7".toList "-0.50e+7e".toList ∧ FloatText "-0.50e+7".toList := by
  have hScan : scanNumber "-0.50e+7e".toList = .literal .float 8 := by decide +kernel
  obtain ⟨t, hLongest, hBytes, -, hFloat⟩ := (scanNumber_longest "-0.50e+7e".toList).1 _ _ hScan
  have hText : takeBytes? 8 "-0.50e+7e".toList = some "-0.50e+7".toList := by decide +kernel
  obtain rfl := Option.some.inj (hText.symm.trans hBytes)
  exact ⟨hScan, hLongest, hFloat.mp rfl⟩

end GraphQLSyntax
