import GraphQLSyntax.Proofs.Lexing.Runs
import GraphQLSyntax.StringLiteral.Decode
import GraphQLSyntax.Token.Scan

/-!
# The grammar of string literals

A quoted literal holds characters of one line and escapes, and ends at the first quote that is not
escaped. A block string holds lines, and ends at the first triple quote that no backslash stands before.
-/

set_option autoImplicit false

namespace GraphQLSyntax

/-- What follows the first quote of a quoted literal, with the quote that ends it. -/
inductive QuotedTail : List Char → Prop
  | close : QuotedTail ['"']
  | plain {c : Char} {cs : List Char} : c ≠ '"' → c ≠ '\\' → isStringCharacter c = true →
      QuotedTail cs → QuotedTail (c :: cs)
  | named {c : Char} {cs : List Char} : (namedEscape? c).isSome = true →
      QuotedTail cs → QuotedTail ('\\' :: c :: cs)
  | codePoint {a b c d : Char} {cs : List Char} : (escapedScalar? a b c d).isSome = true →
      QuotedTail cs → QuotedTail ('\\' :: 'u' :: a :: b :: c :: d :: cs)

/-- What follows the first triple quote of a block string, with the one that ends it. -/
inductive BlockTail : List Char → Prop
  | close : BlockTail tripleQuote
  | escaped {cs : List Char} : BlockTail cs → BlockTail ('\\' :: (tripleQuote ++ cs))
  | plain {c : Char} {cs : List Char} : isBlockCharacter c = true → ¬ tripleQuote <+: c :: cs →
      ¬ '\\' :: tripleQuote <+: c :: cs → BlockTail cs → BlockTail (c :: cs)

inductive StringText : List Char → Prop
  | quoted {cs : List Char} : QuotedTail cs → StringText ('"' :: cs)
  | block {cs : List Char} : BlockTail cs → StringText (tripleQuote ++ cs)

theorem isLineTerminator_eq_false {c : Char} (h : isStringCharacter c = true) :
    isLineTerminator c = false := by
  simp only [isLineTerminator, Bool.or_eq_false_iff, decide_eq_false_iff_not]
  constructor <;> rintro rfl <;> cases h

/-! ## What the scan accepts is a literal -/

theorem scanQuoted_sound {n length : Nat} {cs : List Char} (h : scanQuoted n cs = .closed length) :
    ∃ t rest, cs = t ++ rest ∧ length = n + t.length ∧ QuotedTail t := by
  fun_induction scanQuoted n cs with
  | case1 n => cases h
  | case2 n rest =>
    cases h
    exact ⟨['"'], rest, rfl, rfl, .close⟩
  | case3 n a b c d cs hScalar ih =>
    obtain ⟨t, rest, rfl, rfl, hTail⟩ := ih h
    exact ⟨_, rest, rfl, by simp; omega, .codePoint hScalar hTail⟩
  | case4 => cases h
  | case5 => cases h
  | case6 n c cs hLong hShort hNamed ih =>
    obtain ⟨t, rest, rfl, rfl, hTail⟩ := ih h
    exact ⟨_, rest, rfl, by simp; omega, .named hNamed hTail⟩
  | case7 => cases h
  | case8 => cases h
  | case9 => cases h
  | case10 => cases h
  | case11 n c cs hQuote hLong hShort hEscape hLone hLine hPlain ih =>
    obtain ⟨t, rest, rfl, rfl, hTail⟩ := ih h
    have hBackslash : c ≠ '\\' := by
      rintro rfl
      cases hCs : t ++ rest with
      | nil => exact hLone rfl hCs
      | cons d ds => exact hEscape d ds rfl hCs
    exact ⟨_, rest, rfl, by simp; omega, .plain (fun hc => hQuote hc) hBackslash hPlain hTail⟩
  | case12 => cases h

theorem scanBlock_sound {n length : Nat} {cs : List Char} (h : scanBlock n cs = .closed length) :
    ∃ t rest, cs = t ++ rest ∧ length = n + t.length ∧ BlockTail t := by
  fun_induction scanBlock n cs with
  | case1 => cases h
  | case2 n rest =>
    cases h
    exact ⟨tripleQuote, rest, rfl, rfl, .close⟩
  | case3 n cs ih =>
    obtain ⟨t, rest, rfl, rfl, hTail⟩ := ih h
    exact ⟨_, rest, rfl, by simp [tripleQuote]; omega, .escaped hTail⟩
  | case4 n c cs hClose hEscape hBlock ih =>
    obtain ⟨t, rest, rfl, rfl, hTail⟩ := ih h
    refine ⟨c :: t, rest, rfl, by simp; omega, .plain hBlock ?_ ?_ hTail⟩
    · rintro ⟨u, hu⟩
      obtain ⟨rfl, rfl⟩ : '"' = c ∧ '"' :: '"' :: u = t := by simpa [tripleQuote] using hu
      exact hClose (u ++ rest) rfl rfl
    · rintro ⟨u, hu⟩
      obtain ⟨rfl, rfl⟩ : '\\' = c ∧ '"' :: '"' :: '"' :: u = t := by simpa [tripleQuote] using hu
      exact hEscape (u ++ rest) rfl rfl
  | case5 => cases h

/-- A literal that the scan closes is well-formed. -/
theorem literalEnd_sound {length : Nat} {cs : List Char} (h : literalEnd cs = .closed length) :
    ∃ t rest, cs = t ++ rest ∧ length = t.length + 1 ∧ StringText ('"' :: t) := by
  unfold literalEnd at h
  split at h
  · obtain ⟨t, rest, rfl, rfl, hTail⟩ := scanBlock_sound h
    exact ⟨'"' :: '"' :: t, rest, rfl, by simp; omega, .block hTail⟩
  · obtain ⟨t, rest, rfl, rfl, hTail⟩ := scanQuoted_sound h
    exact ⟨t, rest, rfl, by omega, .quoted hTail⟩

/-! ## A literal is accepted as a whole -/

section

variable {c : Char}

theorem scanQuoted_plain (hQuote : c ≠ '"') (hBackslash : c ≠ '\\') (hPlain : isStringCharacter c = true) (n : Nat)
    (cs : List Char) : scanQuoted n (c :: cs) = scanQuoted (n + 1) cs := by
  rw [scanQuoted]
  · rw [isLineTerminator_eq_false hPlain, if_pos hPlain]
    rfl
  all_goals simp_all

theorem scanQuoted_named (hNamed : (namedEscape? c).isSome = true) (n : Nat) (cs : List Char) :
    scanQuoted n ('\\' :: c :: cs) = scanQuoted (n + 2) cs := by
  rw [scanQuoted]
  · rw [if_pos hNamed]
  · rintro a b c d cs rfl
    cases hNamed
  · rintro rfl
    cases hNamed

theorem scanQuoted_codePoint {a b d : Char} (hScalar : (escapedScalar? a b c d).isSome = true) (n : Nat)
    (cs : List Char) : scanQuoted n ('\\' :: 'u' :: a :: b :: c :: d :: cs) = scanQuoted (n + 6) cs := by
  rw [scanQuoted, if_pos hScalar]

end

theorem scanQuoted_append {t : List Char} (h : QuotedTail t) (rest : List Char) (n : Nat) :
    scanQuoted n (t ++ rest) = .closed (n + t.length) := by
  induction h generalizing n with
  | close => rfl
  | plain hQuote hBackslash hPlain _ ih =>
    rw [List.cons_append, scanQuoted_plain hQuote hBackslash hPlain, ih, List.length_cons]
    congr 1
    omega
  | named hNamed _ ih =>
    rw [List.cons_append, List.cons_append, scanQuoted_named hNamed, ih, List.length_cons, List.length_cons]
    congr 1
    omega
  | codePoint hScalar _ ih =>
    simp only [List.cons_append, scanQuoted_codePoint hScalar, ih, List.length_cons]
    congr 1
    omega

theorem BlockTail.length_ge {t : List Char} (h : BlockTail t) : 3 ≤ t.length := by
  induction h with
  | close => decide
  | escaped _ ih => simp [tripleQuote]
  | plain _ _ _ _ ih =>
    rw [List.length_cons]
    omega

theorem scanBlock_append {t : List Char} (h : BlockTail t) (rest : List Char) (n : Nat) :
    scanBlock n (t ++ rest) = .closed (n + t.length) := by
  induction h generalizing n with
  | close => rfl
  | escaped _ ih =>
    simp [tripleQuote, scanBlock, ih]
    omega
  | @plain c cs hPlain hClose hEscape hTail ih =>
    rw [List.cons_append, scanBlock]
    · rw [if_pos hPlain, ih]
      simp; omega
    -- The tail is long enough to decide alone what the text starts with.
    all_goals
      have hLength := hTail.length_ge
    · rintro u rfl hu
      have hOpens : tripleQuote <+: '"' :: (cs ++ rest) := ⟨u, by rw [hu]; rfl⟩
      refine hClose (List.prefix_of_prefix_length_le hOpens ⟨rest, rfl⟩ ?_)
      simp [tripleQuote]
      omega
    · rintro u rfl hu
      have hOpens : '\\' :: tripleQuote <+: '\\' :: (cs ++ rest) := ⟨u, by rw [hu]; rfl⟩
      refine hEscape (List.prefix_of_prefix_length_le hOpens ⟨rest, rfl⟩ ?_)
      simp [tripleQuote]
      omega

/-- The scan closes a literal where it ends. An empty quoted literal must not have a quote after it,
which would make the text a block string. -/
theorem literalEnd_append {t rest : List Char} (h : StringText ('"' :: t))
    (hRest : t = ['"'] → rest.head? ≠ some '"') : literalEnd (t ++ rest) = .closed (t.length + 1) := by
  generalize hText : '"' :: t = text at h
  cases h with
  | @quoted cs hTail =>
    cases hText
    have hScan := scanQuoted_append hTail rest 1
    cases hTail with
    | close =>
      cases rest with
      | nil => rfl
      | cons c rest =>
        rw [literalEnd]
        · rw [hScan]
          rfl
        · intro cs hcs
          cases hcs
          exact hRest rfl rfl
    | plain hQuote =>
      rw [literalEnd]
      · rw [hScan, Nat.add_comm]
      · intro ds hds
        exact hQuote (List.cons.inj hds).1
    | named | codePoint =>
      rw [literalEnd]
      · rw [hScan, Nat.add_comm]
      · intro ds hds
        cases hds
  | @block cs hTail =>
    cases hText
    change literalEnd ('"' :: '"' :: (cs ++ rest)) = .closed (cs.length + 2 + 1)
    rw [literalEnd, scanBlock_append hTail, Nat.add_comm]

end GraphQLSyntax
