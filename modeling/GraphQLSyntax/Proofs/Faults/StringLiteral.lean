import GraphQLSyntax.Proofs.Faults.Prefix
import GraphQLSyntax.Proofs.Lexing.Lossless
import GraphQLSyntax.Proofs.StringLiteral.Image

/-!
# String literals of a text can be read

The escapes of a literal are looked at twice: when the literal is cut out of a text, and when its value is read.
What the first look lets pass the second one understands.
-/

set_option autoImplicit false

namespace GraphQLSyntax

section

variable {file : Option Path} {source : String} {symbol : GrammarSymbol} {tokens : List Token}
  {e : ParseError}

theorem lex_stringText {t : Token} (ht : t ∈ lex file source) {raw : String} (hKind : t.kind = .string raw) :
    StringText raw.toList := by
  obtain ⟨ts, last, hTokens, hLast, hWell⟩ := @lexFrom_snoc file .start source.toList
  rw [lex_eq_lexFrom, hTokens, List.mem_append, List.mem_singleton] at ht
  obtain ht | rfl := ht
  · have hToken := (hWell t ht).2 (by rw [hKind]; rfl)
    rwa [hKind] at hToken
  · rw [hKind] at hLast
    cases hLast

/-- A string that is found to have no value is a token that has none. -/
theorem parseTokens_stringFault (h : parseTokens tokens symbol = .error e) {fault : StringFault}
    (hKind : e.kind = .invalidValue (.string fault)) :
    ∃ t ∈ tokens, ∃ raw, t.kind = .string raw ∧ decodeStringLiteral raw = .error fault := by
  obtain ⟨ts, us, hFails⟩ := parseTokens_failure h
  have hTokens : tokens = ts ++ us := hFails.rest
  cases hFails.verdict with
  | unreadable hNext _ _ hUnread =>
    cases hUnread with
    | lexical _ hError =>
      rw [hError] at hKind
      cases hKind
    | int _ hOther | float _ hOther =>
      rw [hOther] at hKind
      cases hKind
    | @string raw fault hToken hDecode hSame =>
      rw [hSame] at hKind
      cases hKind
      exact ⟨_, by rw [hTokens, hNext]; simp, raw, hToken, hDecode⟩
  | unexpected _ _ hOther =>
    obtain ⟨_, _, hOther⟩ := hOther
    rw [hOther] at hKind
    cases hKind
  | ended _ hOther =>
    obtain ⟨_, hOther⟩ := hOther
    rw [hOther] at hKind
    cases hKind
  | unclosed _ _ hError =>
    rw [hError] at hKind
    cases hKind
  | refused _ _ hRefusal =>
    rw [hKind] at hRefusal
    cases hRefusal
  | reservedOn _ _ _ _ hOther =>
    rw [hOther] at hKind
    cases hKind
  | deep hOther =>
    rw [hOther] at hKind
    cases hKind

end

/-- Every string literal of a text has a value, so none is what a parse fails for. The value of a quoted one is the
image of what stands between the quotes, character by character, and what has no backslash is read as it stands. -/
theorem lex_strings_read (file : Option Path) (source : String) :
    (∀ t ∈ lex file source, ∀ raw, t.kind = .string raw →
      ∃ value, decodeStringLiteral raw = .ok value ∧ (isBlockLiteral raw = false →
        ∃ content, raw.toList = '"' :: (content ++ ['"']) ∧ ∀ cs, Image content cs ↔ cs = value.toList)) ∧
    (∀ symbol e, parse file source symbol = .error e → ∀ fault, e.kind ≠ .invalidValue (.string fault)) ∧
    ∀ content, decodeQuoted ('"' :: (content ++ ['"'])) = decodeEscapes content ∧
      ('\\' ∉ content → decodeEscapes content = .ok content) := by
  refine ⟨fun t ht raw hKind => (lex_stringText ht hKind).decode, ?_, fun content =>
    ⟨decodeQuoted_eq content, decodeEscapes_of_not_mem⟩⟩
  intro symbol e h fault hKind
  obtain ⟨t, ht, raw, hString, hFault⟩ := parseTokens_stringFault h hKind
  obtain ⟨value, hValue, -⟩ := (lex_stringText ht hString).decode
  rw [hValue] at hFault
  cases hFault

/-- A letter that is written by its code point, and a line feed by its name. -/
theorem lex_strings_read_escaped :
    ∃ value, decodeStringLiteral "\"\\u00e9\\n\"" = .ok value ∧
      ∃ content, "\"\\u00e9\\n\"".toList = '"' :: (content ++ ['"']) ∧ ∀ cs, Image content cs ↔ cs = value.toList := by
  obtain ⟨value, hValue, hContent⟩ := (lex_strings_read none "\"\\u00e9\\n\"").1
    ⟨.string "\"\\u00e9\\n\"", ⟨.origin, ⟨0, 10, some 10, 10⟩, none⟩⟩ (by decide +kernel) _ rfl
  exact ⟨value, hValue, hContent (by decide +kernel)⟩

end GraphQLSyntax
