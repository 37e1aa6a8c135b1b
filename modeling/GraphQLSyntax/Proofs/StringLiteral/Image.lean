import GraphQLSyntax.Proofs.StringLiteral.Value

/-!
# What an escaped text stands for

A text without quotes around it is cut into characters that stand for themselves, named escapes and escapes of
code points. It can be cut in one way at most, and reading it is cutting it.
-/

set_option autoImplicit false

namespace GraphQLSyntax

/-- The letters of the named escapes, each with the character that it names. -/
def namedEscapes : List (Char × Char) :=
  [('"', '"'), ('\\', '\\'), ('/', '/'), ('b', '\x08'), ('f', '\x0c'), ('n', '\n'), ('r', '\r'), ('t', '\t')]

/-- One character of a text that is escaped, and the character it stands for. -/
inductive StandsFor : List Char → Char → Prop
  | itself {c : Char} : c ≠ '\\' → StandsFor [c] c
  | named {e c : Char} : (e, c) ∈ namedEscapes → StandsFor ['\\', e] c
  | codePoint {a b c d x : Char} {i j k l : Nat} : hexValue? a = some i → hexValue? b = some j →
    hexValue? c = some k → hexValue? d = some l → x.toNat = 4096 * i + 256 * j + 16 * k + l →
    StandsFor ['\\', 'u', a, b, c, d] x

/-- A text and the characters it stands for, one after the other. -/
inductive Image : List Char → List Char → Prop
  | nil : Image [] []
  | cons {piece text cs : List Char} {c : Char} : StandsFor piece c → Image text cs →
    Image (piece ++ text) (c :: cs)

/-! ## Escapes -/

theorem namedEscape?_eq_some_iff {e c : Char} : namedEscape? e = some c ↔ (e, c) ∈ namedEscapes := by
  constructor
  · intro h
    unfold namedEscape? at h
    split at h
    all_goals
      cases h
    all_goals decide
  · intro h
    simp only [namedEscapes, List.mem_cons, Prod.mk.injEq, List.not_mem_nil, or_false] at h
    obtain ⟨rfl, rfl⟩ | ⟨rfl, rfl⟩ | ⟨rfl, rfl⟩ | ⟨rfl, rfl⟩ | ⟨rfl, rfl⟩ | ⟨rfl, rfl⟩ | ⟨rfl, rfl⟩ |
      ⟨rfl, rfl⟩ := h
    all_goals rfl

theorem hexNumber?_eq_some_iff {a b c d : Char} {n : Nat} :
    hexNumber? [a, b, c, d] = some n ↔ ∃ i j k l, hexValue? a = some i ∧ hexValue? b = some j ∧
      hexValue? c = some k ∧ hexValue? d = some l ∧ n = 4096 * i + 256 * j + 16 * k + l := by
  simp only [hexNumber?, List.foldl_cons, List.foldl_nil, Option.bind_some]
  constructor
  · intro h
    simp only [Option.bind_eq_some_iff, Option.map_eq_some_iff] at h
    obtain ⟨_, ⟨_, ⟨_, ⟨i, hi, rfl⟩, j, hj, rfl⟩, k, hk, rfl⟩, l, hl, rfl⟩ := h
    exact ⟨i, j, k, l, hi, hj, hk, hl, by omega⟩
  · rintro ⟨i, j, k, l, hi, hj, hk, hl, rfl⟩
    simp only [hi, hj, hk, hl, Option.map_some, Option.bind_some, Option.some.injEq]
    omega

theorem isSurrogate_toNat (x : Char) : isSurrogate x.toNat = false := by
  have hValid : x.toNat < 0xD800 ∨ 0xDFFF < x.toNat ∧ x.toNat < 0x110000 := x.valid
  simp only [isSurrogate, Bool.and_eq_false_iff, decide_eq_false_iff_not]
  omega

/-- The digits name the character whose code point they are. -/
theorem escapedScalar?_eq_some_iff {a b c d x : Char} :
    escapedScalar? a b c d = some x ↔ hexNumber? [a, b, c, d] = some x.toNat := by
  unfold escapedScalar?
  constructor
  · intro h
    split at h
    · cases h
    · rename_i n hNumber
      split at h
      · cases h
      · rename_i hScalar
        cases h
        obtain ⟨i, j, k, l, hi, hj, hk, hl, rfl⟩ := hexNumber?_eq_some_iff.mp hNumber
        have hi := hexValue?_lt hi
        have hj := hexValue?_lt hj
        have hk := hexValue?_lt hk
        have hl := hexValue?_lt hl
        have hValid : (4096 * i + 256 * j + 16 * k + l).isValidChar := by
          simp only [isSurrogate, Bool.and_eq_true, decide_eq_true_eq] at hScalar
          unfold Nat.isValidChar
          omega
        rw [toNat_ofNat hValid]
        exact hNumber
  · intro h
    rw [h]
    simp only [isSurrogate_toNat, Bool.false_eq_true, if_false, Char.ofNat_toNat]

/-! ## Reading is cutting -/

theorem StandsFor.decode {piece : List Char} {c : Char} (h : StandsFor piece c) (text : List Char) :
    decodeEscapes (piece ++ text) = (decodeEscapes text).map (c :: ·) := by
  cases h with
  | itself hPlain => exact decodeEscapes_plain hPlain text
  | named hNamed => exact decodeEscapes_named (namedEscape?_eq_some_iff.mpr hNamed) text
  | codePoint ha hb hc hd hNumber =>
    apply decodeEscapes_codePoint
    rw [escapedScalar?_eq_some_iff, hexNumber?_eq_some_iff]
    exact ⟨_, _, _, _, ha, hb, hc, hd, hNumber⟩

theorem standsFor_codePoint {a b c d x : Char} (h : escapedScalar? a b c d = some x) :
    StandsFor ['\\', 'u', a, b, c, d] x := by
  rw [escapedScalar?_eq_some_iff, hexNumber?_eq_some_iff] at h
  obtain ⟨i, j, k, l, ha, hb, hc, hd, hNumber⟩ := h
  exact .codePoint ha hb hc hd hNumber

theorem Image.decode {text cs : List Char} (h : Image text cs) : decodeEscapes text = .ok cs := by
  induction h with
  | nil => rfl
  | cons hPiece _ ih =>
    rw [hPiece.decode, ih]
    rfl

theorem image_of_decode {text : List Char} : ∀ {cs : List Char}, decodeEscapes text = .ok cs → Image text cs := by
  fun_induction decodeEscapes text with
  | case1 =>
    intro cs h
    cases h
    exact .nil
  | case2 a b c d text x hScalar ih =>
    intro cs h
    obtain ⟨rest, hRest, rfl⟩ := map_cons_ok h
    exact .cons (standsFor_codePoint hScalar) (ih hRest)
  | case5 c text _ _ x hNamed ih =>
    intro cs h
    obtain ⟨rest, hRest, rfl⟩ := map_cons_ok h
    exact .cons (.named (namedEscape?_eq_some_iff.mp hNamed)) (ih hRest)
  | case8 c text _ _ hMore hAlone ih =>
    intro cs h
    obtain ⟨rest, hRest, rfl⟩ := map_cons_ok h
    have hPlain : c ≠ '\\' := by
      intro hBackslash
      cases text with
      | nil => exact hAlone hBackslash rfl
      | cons d text => exact hMore d text hBackslash rfl
    exact .cons (.itself hPlain) (ih hRest)
  | case3 | case4 | case6 | case7 =>
    intro cs h
    cases h

theorem decodeEscapes_eq_ok_iff {text cs : List Char} : decodeEscapes text = .ok cs ↔ Image text cs :=
  ⟨image_of_decode, Image.decode⟩

/-! ## Literals that a scan admits -/

/-- Every escape that a scan lets pass is one that can be read. -/
theorem QuotedTail.image {t : List Char} (h : QuotedTail t) :
    ∃ content cs, t = content ++ ['"'] ∧ Image content cs := by
  induction h with
  | close => exact ⟨[], [], rfl, .nil⟩
  | plain _ hBackslash _ _ ih =>
    obtain ⟨content, cs, rfl, hImage⟩ := ih
    exact ⟨_, _, rfl, .cons (.itself hBackslash) hImage⟩
  | named hNamed _ ih =>
    obtain ⟨content, cs, rfl, hImage⟩ := ih
    obtain ⟨x, hx⟩ := Option.isSome_iff_exists.mp hNamed
    exact ⟨_, _, rfl, .cons (.named (namedEscape?_eq_some_iff.mp hx)) hImage⟩
  | codePoint hScalar _ ih =>
    obtain ⟨content, cs, rfl, hImage⟩ := ih
    obtain ⟨x, hx⟩ := Option.isSome_iff_exists.mp hScalar
    exact ⟨_, _, rfl, .cons (standsFor_codePoint hx) hImage⟩

/-- The text that a literal stands for is the image of what stands between its quotes, and of nothing else. -/
theorem StringText.decode {raw : String} (h : StringText raw.toList) :
    ∃ value, decodeStringLiteral raw = .ok value ∧ (isBlockLiteral raw = false →
      ∃ content, raw.toList = '"' :: (content ++ ['"']) ∧ ∀ cs, Image content cs ↔ cs = value.toList) := by
  generalize hText : raw.toList = text at h
  cases h with
  | quoted hTail =>
    have hQuoted := isBlockLiteral_quoted hText hTail
    obtain ⟨content, cs, rfl, hImage⟩ := hTail.image
    have hDecode := hImage.decode
    refine ⟨String.ofList cs, ?_, fun _ => ⟨content, rfl, fun ds => ?_⟩⟩
    · rw [decodeStringLiteral, hQuoted, hText]
      simp only [Bool.false_eq_true, if_false, decodeQuoted_eq, hDecode, Except.map]
    · rw [← decodeEscapes_eq_ok_iff, hDecode, String.toList_ofList, Except.ok.injEq]
      exact eq_comm
  | block hTail =>
    have hBlock : isBlockLiteral raw = true := by
      rw [isBlockLiteral, hText]
      exact List.isPrefixOf_iff_prefix.mpr (List.prefix_append _ _)
    obtain ⟨value, hValue, -⟩ := hTail.decode_basic
    refine ⟨String.ofList value, ?_, fun hQuoted => ?_⟩
    · rw [decodeStringLiteral, hBlock, hText, if_pos rfl, hValue]
      rfl
    · rw [hBlock] at hQuoted
      cases hQuoted

end GraphQLSyntax
