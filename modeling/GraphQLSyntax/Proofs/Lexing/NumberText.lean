import GraphQLSyntax.Number.Literal
import GraphQLSyntax.Proofs.Lexing.Runs

/-!
# The grammar of number literals

An integer is an optional minus and either a zero or digits that start with none. A float is an integer
with a fraction, an exponent, or both. The scan accepts what the grammar derives and nothing else.
-/

set_option autoImplicit false

namespace GraphQLSyntax

def AllDigits (cs : List Char) : Prop := ∀ c ∈ cs, c.isDigit = true

/-- A zero alone, or digits of which the first is no zero. -/
inductive IntegerPart : List Char → Prop
  | zero : IntegerPart ['0']
  | digits {c : Char} {cs : List Char} : c.isDigit = true → c ≠ '0' → AllDigits cs →
      IntegerPart (c :: cs)

inductive IntText : List Char → Prop
  | plain {cs : List Char} : IntegerPart cs → IntText cs
  | negative {cs : List Char} : IntegerPart cs → IntText ('-' :: cs)

inductive FractionText : List Char → Prop
  | mk {cs : List Char} : cs ≠ [] → AllDigits cs → FractionText ('.' :: cs)

inductive ExponentText : List Char → Prop
  | mk {e : Char} {sign cs : List Char} : e = 'e' ∨ e = 'E' → sign = [] ∨ sign = ['+'] ∨ sign = ['-'] →
      cs ≠ [] → AllDigits cs → ExponentText (e :: (sign ++ cs))

inductive FloatText : List Char → Prop
  | fraction {i f : List Char} : IntText i → FractionText f → FloatText (i ++ f)
  | exponent {i x : List Char} : IntText i → ExponentText x → FloatText (i ++ x)
  | both {i f x : List Char} : IntText i → FractionText f → ExponentText x → FloatText (i ++ (f ++ x))

def NumberText : NumberKind → List Char → Prop
  | .int => IntText
  | .float => FloatText

/-- What cannot go on with a number literal. -/
def EndsNumber (rest : List Char) : Prop :=
  ∀ c ∈ rest.head?, c.isDigit = false ∧ c ≠ 'e' ∧ c ≠ 'E' ∧ c ≠ '.'

theorem EndsNumber.stopsAt {rest : List Char} (h : EndsNumber rest) : StopsAt Char.isDigit rest :=
  fun c hc => (h c hc).1

/-! ## Runs of digits -/

theorem allDigits_take (cs : List Char) : AllDigits (cs.take (digitRun cs)) := by
  intro c hc
  rw [digitRun, take_length_takeWhile] at hc
  exact of_mem_takeWhile hc

theorem digitRun_append {ds rest : List Char} (hDigits : AllDigits ds)
    (hRest : StopsAt Char.isDigit rest) : digitRun (ds ++ rest) = ds.length := by
  rw [digitRun, takeWhile_append_stop hDigits hRest]

theorem digitRun_eq_zero {rest : List Char} (h : StopsAt Char.isDigit rest) : digitRun rest = 0 :=
  digitRun_append (fun _ hd => nomatch hd : AllDigits []) h

theorem take_digitRun_ne_nil {cs : List Char} (h : digitRun cs ≠ 0) : cs.take (digitRun cs) ≠ [] := by
  rw [digitRun, take_length_takeWhile]
  exact List.length_pos_iff.mp (Nat.pos_of_ne_zero h)

theorem length_take_digitRun (cs : List Char) : (cs.take (digitRun cs)).length = digitRun cs := by
  rw [digitRun, take_length_takeWhile]

/-! ## What the scan accepts is a literal -/

theorem scanExponent_sound {kind k : NumberKind} {length n : Nat} {cs : List Char}
    (h : scanExponent kind length cs = .literal k n) :
    ∃ x rest, cs = x ++ rest ∧ n = length + x.length ∧
      (x = [] ∧ k = kind ∨ ExponentText x ∧ k = .float) := by
  cases cs with
  | nil =>
    cases h
    exact ⟨[], [], rfl, rfl, .inl ⟨rfl, rfl⟩⟩
  | cons e cs =>
    rw [scanExponent] at h
    split at h
    · rename_i hLetter
      -- The sign is what the scan passes over before it looks for digits.
      obtain ⟨sign, digits, hSign, hSplit, hLength⟩ : ∃ sign digits,
          (sign = [] ∨ sign = ['+'] ∨ sign = ['-']) ∧ cs = sign ++ digits ∧
          sign.length = if cs.head? = some '+' ∨ cs.head? = some '-' then 1 else 0 := by
        cases cs with
        | nil => exact ⟨[], [], by simp⟩
        | cons c cs =>
          by_cases hc : c = '+' ∨ c = '-'
          · exact ⟨[c], cs, by simpa using hc, rfl, by simp [hc]⟩
          · exact ⟨[], c :: cs, by simp, rfl, by simp [hc]⟩
      simp only [← hLength] at h
      rw [hSplit, List.drop_left] at h
      split at h
      · cases h
      · rename_i hDigits
        cases h
        refine ⟨e :: (sign ++ digits.take (digitRun digits)), digits.drop (digitRun digits), ?_, ?_,
          .inr ⟨.mk hLetter hSign (take_digitRun_ne_nil hDigits) (allDigits_take digits), rfl⟩⟩
        · simp [hSplit, List.append_assoc]
        · rw [List.length_cons, List.length_append, length_take_digitRun, hLength]
          omega
    · cases h
      exact ⟨[], e :: cs, rfl, rfl, .inl ⟨rfl, rfl⟩⟩

/-- What may follow the integer part of a literal of each kind. -/
def TailText : NumberKind → List Char → Prop
  | .int, tail => tail = []
  | .float, tail =>
    FractionText tail ∨ ExponentText tail ∨
      ∃ f x, tail = f ++ x ∧ FractionText f ∧ ExponentText x

theorem IntText.append_tail {i tail : List Char} (hInt : IntText i) {k : NumberKind}
    (hTail : TailText k tail) : NumberText k (i ++ tail) := by
  cases k with
  | int =>
    cases hTail
    simpa [NumberText] using hInt
  | float =>
    rcases hTail with hFraction | hExponent | ⟨f, x, rfl, hFraction, hExponent⟩
    · exact .fraction hInt hFraction
    · exact .exponent hInt hExponent
    · exact .both hInt hFraction hExponent

theorem scanFraction_sound {k : NumberKind} {length n : Nat} {cs : List Char}
    (h : scanFraction length cs = .literal k n) :
    ∃ tail rest, cs = tail ++ rest ∧ n = length + tail.length ∧ TailText k tail := by
  cases cs with
  | nil =>
    cases h
    exact ⟨[], [], rfl, rfl, rfl⟩
  | cons c cs =>
    rw [scanFraction] at h
    split at h
    · rename_i hPoint
      have hFraction : FractionText ('.' :: cs.take (digitRun cs)) :=
        .mk (take_digitRun_ne_nil hPoint.2) (allDigits_take cs)
      obtain ⟨x, rest, hRest, hn, hx⟩ := scanExponent_sound h
      refine ⟨('.' :: cs.take (digitRun cs)) ++ x, rest, ?_, ?_, ?_⟩
      · rw [hPoint.1, List.append_assoc, ← hRest, List.cons_append, List.take_append_drop]
      · rw [hn, List.length_append, List.length_cons, length_take_digitRun]
        omega
      · rcases hx with ⟨rfl, rfl⟩ | ⟨hExponent, rfl⟩
        · exact .inl (by simpa using hFraction)
        · exact .inr (.inr ⟨_, x, rfl, hFraction, hExponent⟩)
    · obtain ⟨x, rest, hRest, hn, hx⟩ := scanExponent_sound h
      refine ⟨x, rest, hRest, hn, ?_⟩
      rcases hx with ⟨rfl, rfl⟩ | ⟨hExponent, rfl⟩
      · rfl
      · exact .inr (.inl hExponent)

/-- What the scan does once it has passed over the sign. -/
theorem scanNumber_signed {sign cs : List Char} {c : Char}
    (hSign : sign.length = if (sign ++ c :: cs).head? = some '-' then 1 else 0) :
    scanNumber (sign ++ c :: cs) =
      if c = '0' then
        if digitRun cs = 0 then scanFraction (sign.length + 1) cs
        else .fault .leadingZero (sign.length + 1 + digitRun cs)
      else if c.isDigit then
        scanFraction (sign.length + 1 + digitRun cs) (cs.drop (digitRun cs))
      else .fault .missingDigits sign.length := by
  rw [scanNumber, ← hSign, List.drop_left]

theorem scanNumber_sound {k : NumberKind} {n : Nat} {text : List Char}
    (h : scanNumber text = .literal k n) :
    ∃ t rest, text = t ++ rest ∧ n = t.length ∧ NumberText k t := by
  -- The sign is a minus or nothing, and the integer part starts after it.
  obtain ⟨sign, cs, rfl, hLength, hInt⟩ : ∃ sign cs, text = sign ++ cs ∧
      sign.length = (if (sign ++ cs).head? = some '-' then 1 else 0) ∧
      ∀ ds, IntegerPart ds → IntText (sign ++ ds) := by
    cases text with
    | nil => exact ⟨[], [], rfl, rfl, fun _ hds => .plain hds⟩
    | cons c cs =>
      by_cases hc : c = '-'
      · exact ⟨[c], cs, rfl, by simp [hc], fun _ hds => hc ▸ .negative hds⟩
      · exact ⟨[], c :: cs, rfl, by simp [hc], fun _ hds => .plain hds⟩
  cases cs with
  | nil =>
    rw [scanNumber, ← hLength, List.drop_left] at h
    cases h
  | cons c cs =>
    rw [scanNumber_signed hLength] at h
    split at h
    · rename_i hZero
      split at h
      · obtain ⟨tail, rest, hRest, hn, hTail⟩ := scanFraction_sound h
        refine ⟨(sign ++ ['0']) ++ tail, rest, ?_, ?_, (hInt _ .zero).append_tail hTail⟩
        · simp [hZero, hRest]
        · rw [hn, List.length_append, List.length_append, List.length_singleton]
      · cases h
    · rename_i hZero
      split at h
      · rename_i hDigit
        obtain ⟨tail, rest, hRest, hn, hTail⟩ := scanFraction_sound h
        refine ⟨(sign ++ c :: cs.take (digitRun cs)) ++ tail, rest, ?_, ?_,
          (hInt _ (.digits hDigit hZero (allDigits_take cs))).append_tail hTail⟩
        · rw [List.append_assoc, List.append_assoc, ← hRest, List.cons_append,
            List.take_append_drop]
        · rw [hn, List.length_append, List.length_append, List.length_cons, length_take_digitRun]
          omega
      · cases h

/-! ## A literal is accepted as a whole -/

theorem ExponentText.stops {x rest : List Char} (h : ExponentText x) :
    StopsAt Char.isDigit (x ++ rest) := by
  cases h with
  | mk hLetter _ _ _ =>
    intro c hc
    simp only [List.cons_append, List.head?_cons, Option.mem_some_iff] at hc
    rcases hLetter with rfl | rfl <;> cases hc <;> rfl

theorem ExponentText.head_ne {x : List Char} (h : ExponentText x) (rest : List Char) :
    ∃ c cs, x ++ rest = c :: cs ∧ c ≠ '.' := by
  cases h with
  | @mk e sign cs hLetter =>
    refine ⟨e, sign ++ cs ++ rest, by simp, ?_⟩
    rcases hLetter with rfl | rfl <;> decide

theorem scanExponent_append {x rest : List Char} (h : ExponentText x) (hRest : EndsNumber rest)
    (kind : NumberKind) (length : Nat) :
    scanExponent kind length (x ++ rest) = .literal .float (length + x.length) := by
  cases h with
  | @mk e sign cs hLetter hSign hNonempty hDigits =>
    have hRun : digitRun (cs ++ rest) = cs.length := digitRun_append hDigits hRest.stopsAt
    have hCount : cs.length ≠ 0 := by simpa using hNonempty
    obtain ⟨d, ds, rfl⟩ := List.exists_cons_of_ne_nil hNonempty
    have hDigit : d.isDigit = true := hDigits d List.mem_cons_self
    have hPlus : d ≠ '+' := by rintro rfl; cases hDigit
    have hMinus : d ≠ '-' := by rintro rfl; cases hDigit
    rw [List.cons_append, scanExponent, if_pos hLetter]
    rcases hSign with rfl | rfl | rfl <;>
      simp_all <;> omega

theorem scanExponent_end {rest : List Char} (hRest : EndsNumber rest) (kind : NumberKind)
    (length : Nat) : scanExponent kind length rest = .literal kind length := by
  cases rest with
  | nil => rfl
  | cons c cs =>
    obtain ⟨-, hLower, hUpper, -⟩ := hRest c rfl
    simp [scanExponent, hLower, hUpper]

theorem scanFraction_exponent {x rest : List Char} (h : ExponentText x) (hRest : EndsNumber rest)
    (length : Nat) : scanFraction length (x ++ rest) = .literal .float (length + x.length) := by
  obtain ⟨c, cs, hx, hPoint⟩ := h.head_ne rest
  rw [← scanExponent_append h hRest .int length, hx]
  simp [scanFraction, hPoint]

theorem scanFraction_append {f rest : List Char} (h : FractionText f)
    (hRest : StopsAt Char.isDigit rest) (length : Nat) :
    scanFraction length (f ++ rest) = scanExponent .float (length + f.length) rest := by
  cases h with
  | @mk cs hNonempty hDigits =>
    have hRun : digitRun (cs ++ rest) = cs.length := digitRun_append hDigits hRest
    have hCount : cs.length ≠ 0 := by simpa using hNonempty
    rw [List.cons_append, scanFraction, if_pos ⟨rfl, by rwa [hRun]⟩, hRun, List.drop_left,
      List.length_cons]
    congr 1
    omega

theorem scanFraction_end {rest : List Char} (hRest : EndsNumber rest) (length : Nat) :
    scanFraction length rest = .literal .int length := by
  cases rest with
  | nil => rfl
  | cons c cs =>
    obtain ⟨-, -, -, hPoint⟩ := hRest c rfl
    rw [scanFraction, if_neg (fun h => hPoint h.1), scanExponent_end hRest]

theorem scanFraction_tail {k : NumberKind} {tail rest : List Char} (h : TailText k tail)
    (hRest : EndsNumber rest) (length : Nat) :
    scanFraction length (tail ++ rest) = .literal k (length + tail.length) := by
  cases k with
  | int =>
    cases h
    exact scanFraction_end hRest length
  | float =>
    rcases h with hFraction | hExponent | ⟨f, x, rfl, hFraction, hExponent⟩
    · rw [scanFraction_append hFraction hRest.stopsAt, scanExponent_end hRest]
    · exact scanFraction_exponent hExponent hRest length
    · rw [List.append_assoc, scanFraction_append hFraction hExponent.stops,
        scanExponent_append hExponent hRest, List.length_append, Nat.add_assoc]

/-- The tail of a float does not go on with the digits before it. -/
theorem stops_of_floatTail {tail : List Char} (h : TailText .float tail) (rest : List Char) :
    StopsAt Char.isDigit (tail ++ rest) := by
  have hFraction : ∀ {f : List Char} (more : List Char), FractionText f → StopsAt Char.isDigit (f ++ more) := by
    intro f more hf
    cases hf
    intro c hc
    cases hc
    rfl
  rcases h with hf | hx | ⟨f, x, rfl, hf, -⟩
  · exact hFraction rest hf
  · exact hx.stops
  · rw [List.append_assoc]
    exact hFraction _ hf

theorem TailText.stops {k : NumberKind} {tail rest : List Char} (h : TailText k tail)
    (hRest : EndsNumber rest) : StopsAt Char.isDigit (tail ++ rest) := by
  cases k with
  | int =>
    cases h
    exact hRest.stopsAt
  | float => exact stops_of_floatTail h rest

theorem NumberText.split {k : NumberKind} {t : List Char} (h : NumberText k t) :
    ∃ i tail, t = i ++ tail ∧ IntText i ∧ TailText k tail := by
  cases k with
  | int => exact ⟨t, [], by simp, h, rfl⟩
  | float =>
    cases h with
    | fraction hInt hFraction => exact ⟨_, _, rfl, hInt, .inl hFraction⟩
    | exponent hInt hExponent => exact ⟨_, _, rfl, hInt, .inr (.inl hExponent)⟩
    | both hInt hFraction hExponent =>
      exact ⟨_, _, rfl, hInt, .inr (.inr ⟨_, _, rfl, hFraction, hExponent⟩)⟩

theorem NumberText.exists_cons {k : NumberKind} {t : List Char} (h : NumberText k t) :
    ∃ c cs, t = c :: cs := by
  obtain ⟨i, tail, rfl, hInt, -⟩ := h.split
  cases hInt with
  | plain hPart => cases hPart <;> exact ⟨_, _, rfl⟩
  | negative => exact ⟨_, _, rfl⟩

theorem IntegerPart.head_ne {cs : List Char} (h : IntegerPart cs) : cs.head? ≠ some '-' := by
  cases h with
  | zero => decide
  | digits hDigit =>
    rintro hMinus
    cases hMinus
    cases hDigit

/-- The sign of an integer is a minus or nothing, and the scan tells which by the first character. -/
theorem IntText.sign_split {i : List Char} (h : IntText i) : ∃ sign cs, i = sign ++ cs ∧ IntegerPart cs ∧
    ∀ rest : List Char, sign.length = if (sign ++ (cs ++ rest)).head? = some '-' then 1 else 0 := by
  cases h with
  | plain hPart =>
    refine ⟨[], i, rfl, hPart, fun rest => ?_⟩
    have hHead := hPart.head_ne
    cases hPart with
    | zero => rfl
    | digits => simpa using hHead
  | @negative cs hPart => exact ⟨['-'], cs, rfl, hPart, fun rest => rfl⟩

/-- The scan takes a literal as a whole when what follows cannot go on with it. -/
theorem scanNumber_append {k : NumberKind} {t rest : List Char} (h : NumberText k t)
    (hRest : EndsNumber rest) : scanNumber (t ++ rest) = .literal k t.length := by
  obtain ⟨i, tail, rfl, hInt, hTail⟩ := h.split
  obtain ⟨sign, cs, rfl, hPart, hSign⟩ := hInt.sign_split
  have hStops : StopsAt Char.isDigit (tail ++ rest) := hTail.stops hRest
  have hLength := hSign (tail ++ rest)
  rw [List.append_assoc, List.append_assoc]
  cases hPart with
  | zero =>
    rw [List.singleton_append] at hLength ⊢
    rw [scanNumber_signed hLength, if_pos rfl, if_pos (digitRun_eq_zero hStops), scanFraction_tail hTail hRest,
      List.length_append, List.length_append, List.length_singleton]
  | @digits c cs hDigit hZero hDigits =>
    rw [List.cons_append] at hLength ⊢
    rw [scanNumber_signed hLength, if_neg hZero, if_pos hDigit, digitRun_append hDigits hStops, List.drop_left,
      scanFraction_tail hTail hRest]
    simp [Nat.add_assoc, Nat.add_comm, Nat.add_left_comm]

end GraphQLSyntax
