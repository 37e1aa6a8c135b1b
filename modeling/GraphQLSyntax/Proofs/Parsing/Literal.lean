import GraphQLSyntax.Proofs.Lexing.Spelling
import GraphQLSyntax.Proofs.Number.Written
import GraphQLSyntax.Proofs.Parsing.Progress
import GraphQLSyntax.Proofs.StringLiteral.Value

/-!
# Literals

A literal fits when it is within the range of its kind of number, or when it stands for a text. What a
literal that fits stands for has a literal of its own in canonical form, which stands for the same.
-/

set_option autoImplicit false

namespace GraphQLSyntax

/-- The range of a literal's number, or the existence of its text. -/
def TokenKind.Fits : TokenKind → Prop
  | int raw => -(Nat.pow 2 63 : Int) ≤ intLiteral raw ∧ intLiteral raw < Nat.pow 2 63
  | float raw => ∃ x, Binary64.ofText? raw.toList = some x ∧ x.isFinite = true
  | string raw => ∃ v, decodeStringLiteral raw = .ok v
  | _ => True

/-! ## Integers -/

theorem intLiteral_of_digits {raw : String} {negative : Bool} {ds : List Char} (hDigits : IntegerPart ds)
    (hRaw : raw.toList = minusSign negative ++ ds) :
    intLiteral raw = if negative then -(digitsValue ds : Int) else digitsValue ds := by
  obtain ⟨hNonempty, hAll⟩ := hDigits.allDigits
  have hSplit := splitSign_minusSign negative hNonempty hAll []
  rw [List.append_nil, ← hRaw] at hSplit
  rw [intLiteral, hSplit]

theorem intLiteral_toString (v : Int) : intLiteral (toString v) = v := by
  rw [intLiteral_of_digits (integerPart_toDigits v.natAbs) (toList_toString v), digitsValue_toDigits,
    signed_natAbs]

/-- An unsigned literal neither starts with a minus nor with a plus. -/
theorem IntegerPart.exists_cons {cs : List Char} (h : IntegerPart cs) :
    ∃ c ds, cs = c :: ds ∧ c ≠ '-' ∧ c ≠ '+' := by
  cases h with
  | zero => exact ⟨'0', [], rfl, by decide, by decide⟩
  | @digits c ds hc =>
    refine ⟨c, ds, rfl, ?_, ?_⟩
    · rintro rfl
      cases hc
    · rintro rfl
      cases hc

theorem readInt64_of_intText {raw : String} (h : IntText raw.toList) :
    (∃ v, readInt64 raw.toList = .ok v) ↔
      -(Nat.pow 2 63 : Int) ≤ intLiteral raw ∧ intLiteral raw < Nat.pow 2 63 := by
  have hPositive : 0 < Nat.pow 2 63 := by decide
  generalize hText : raw.toList = text at h ⊢
  cases h with
  | @negative ds hDigits =>
    obtain ⟨hNonempty, hAll⟩ := hDigits.allDigits
    have hLiteral : intLiteral raw = -(digitsValue ds : Int) := @intLiteral_of_digits _ true _ hDigits hText
    rw [hLiteral, readInt64, if_pos rfl, natural?_of_digits hNonempty hAll]
    generalize digitsValue ds = n
    generalize Nat.pow 2 63 = limit at hPositive ⊢
    dsimp only
    split
    · exact ⟨fun _ => by omega, fun _ => ⟨_, rfl⟩⟩
    · exact ⟨(fun ⟨_, hv⟩ => nomatch hv), fun _ => by omega⟩
  | plain hDigits =>
    obtain ⟨hNonempty, hAll⟩ := hDigits.allDigits
    have hLiteral : intLiteral raw = (digitsValue text : Int) := @intLiteral_of_digits _ false _ hDigits hText
    obtain ⟨c, ds, rfl, hMinus, hPlus⟩ := hDigits.exists_cons
    rw [hLiteral, readInt64, if_neg hMinus, if_neg hPlus, natural?_of_digits hNonempty hAll]
    generalize digitsValue (c :: ds) = n
    generalize Nat.pow 2 63 = limit at hPositive ⊢
    dsimp only
    split
    · exact ⟨fun _ => by omega, fun _ => ⟨_, rfl⟩⟩
    · exact ⟨(fun ⟨_, hv⟩ => nomatch hv), fun _ => by omega⟩

theorem TokenKind.readable_iff_fits {k : TokenKind} (h : k.WellFormed) : k.Readable ↔ k.Fits := by
  cases k with
  | int raw => exact readInt64_of_intText h
  | endOfInput | error => exact h.elim
  | _ => exact Iff.rfl

/-! ## Canonical literals -/

theorem canonical_int {raw : String} (hWell : (TokenKind.int raw).WellFormed)
    (hReadable : (TokenKind.int raw).Readable) :
    (TokenKind.int (toString (intLiteral raw))).WellFormed ∧
      (TokenKind.int (toString (intLiteral raw))).Readable := by
  have hText := intText_toString (intLiteral raw)
  refine ⟨hText, (readInt64_of_intText hText).mpr ?_⟩
  rw [intLiteral_toString]
  exact (readInt64_of_intText hWell).mp hReadable

theorem canonical_float {raw : String} (h : (TokenKind.float raw).Readable) :
    (TokenKind.float (FloatForm.canonical.write (floatLiteral raw))).WellFormed ∧
      (TokenKind.float (FloatForm.canonical.write (floatLiteral raw))).Readable ∧
      floatLiteral (FloatForm.canonical.write (floatLiteral raw)) = floatLiteral raw := by
  obtain ⟨x, hText, hFinite⟩ := h
  have hLiteral : floatLiteral raw = x := by rw [floatLiteral, hText, Option.getD_some]
  obtain ⟨hFloat, hReads⟩ := FloatForm.write_canonical hFinite
  rw [hLiteral]
  exact ⟨hFloat, ⟨x, hReads, hFinite⟩, by rw [floatLiteral, hReads, Option.getD_some]⟩

theorem canonical_string {raw : String} (hWell : (TokenKind.string raw).WellFormed)
    (hReadable : (TokenKind.string raw).Readable) :
    let literal := String.ofList (encodeQuoted (stringLiteral raw).toList)
    (TokenKind.string literal).WellFormed ∧ (TokenKind.string literal).Readable ∧
      stringLiteral literal = stringLiteral raw := by
  intro literal
  obtain ⟨value, hValue⟩ := hReadable
  have hLiteral : stringLiteral raw = value := by
    rw [stringLiteral, hValue]
    rfl
  obtain ⟨hText, hDecode⟩ := decodeStringLiteral_encodeQuoted (decodeStringLiteral_basic hWell hValue)
  have hString : StringText literal.toList := by
    rw [String.toList_ofList, hLiteral]
    exact hText
  have hReads : decodeStringLiteral literal = .ok value := by
    rw [← hDecode, ← hLiteral]
  refine ⟨hString, ⟨value, hReads⟩, ?_⟩
  rw [stringLiteral, hReads, hLiteral]
  rfl

end GraphQLSyntax
