import GraphQLSyntax.Proofs.Grammar.Alternative
import GraphQLSyntax.Proofs.Parsing.Language
import GraphQLSyntax.Proofs.Tree.Layout

/-!
# Parsing as a symbol or as one of its alternatives

A text is parsed into a node from a symbol with alternatives if it is parsed into that node from just one of them. Only
the room for nesting can differ.
-/

set_option autoImplicit false

namespace GraphQLSyntax

section

variable {file : Option Path} {source : String} {symbol b : GrammarSymbol} {c d : Construct}

/-- All that is parsed from a text is derived from the same tokens. -/
theorem tokens_unique (h : parse file source symbol = .ok c) (h' : parse file source b = .ok d) :
    ∃ ts last, lex file source = ts ++ [last] ∧ last.kind = .endOfInput ∧ (∀ t ∈ ts, t.kind.Readable) ∧
      Derives symbol ts c ∧ Derives b ts d := by
  obtain ⟨ts, last, hLex, hLast, hTokens, hDerives, -⟩ := parse_eq_ok h
  obtain ⟨ts', last', hLex', -, -, hDerives', -⟩ := parse_eq_ok h'
  obtain ⟨rfl, -⟩ := List.append_inj' (hLex.symm.trans hLex') rfl
  exact ⟨ts, last, hLex, hLast, fun t ht => (hTokens t ht).2, hDerives, hDerives'⟩

theorem parse_alternative (h : parse file source c.symbol = .ok c) :
    parse file source c.alternative.symbol = .ok c.alternative :=
  parse_mono h (fun _ hDerives => hDerives.alternative) c.nesting_alternative

/-- What is parsed from an alternative is parsed from the symbol, unless there is no room for it. -/
theorem parse_of_alternative (h : parse file source c.alternative.symbol = .ok c.alternative) :
    parse file source c.symbol = .ok c ∨ ∃ span, parse file source c.symbol = .error (.tooDeep span) := by
  obtain ⟨ts, last, hLex, hLast, hTokens, hDerives, -⟩ := parse_eq_ok h
  have hReadable : ∀ t ∈ ts, t.kind.Readable := fun t ht => (hTokens t ht).2
  exact (parse_complete hLex hLast hReadable hDerives.of_alternative).imp_right And.right

/-- No alternative but the one that was chosen parses a text. -/
theorem alternative_eq_of_parse (h : parse file source c.symbol = .ok c) (hb : b ∈ c.symbol.alternatives)
    (hd : parse file source b = .ok d) : d = c.alternative := by
  obtain ⟨ts, last, hLex, hLast, hReadable, -, hDerives⟩ := tokens_unique h hd
  obtain ⟨c', hSymbol, rfl⟩ := hDerives.exists_alternative hb
  obtain rfl := hDerives.symbol_eq
  obtain hOk | ⟨span, hDeep⟩ := parse_of_alternative hd
  · rw [hSymbol, h] at hOk
    cases hOk
    rfl
  · rw [hSymbol, h] at hDeep
    cases hDeep

theorem parse_document_singleton_iff {d : Definition} :
    (∃ doc, parse file source .document = .ok (.document doc) ∧ doc.definitions = [d]) ↔
      parse file source .definition = .ok (.definition d) := by
  constructor
  · rintro ⟨⟨ds, span⟩, h, rfl⟩
    exact parse_mono h (fun _ hDerives => (derives_document_singleton_iff.mp hDerives).1) (Nat.le_max_left _ _)
  · intro h
    obtain ⟨ts, last, hLex, hLast, hTokens, hDerives, hNesting⟩ := parse_eq_ok h
    have hDocument := derives_document_singleton_iff.mpr ⟨hDerives, rfl⟩
    refine ⟨⟨[d], spanOver ts⟩, parse_of_derives hLex hLast (fun t ht => (hTokens t ht).2) hDocument ?_, rfl⟩
    exact Nat.max_le.mpr ⟨hNesting, Nat.zero_le _⟩

end

/-- Parsing from a symbol with alternatives agrees with parsing from each of them, but for the room that nesting takes.
A name is one of a fragment unless it is the word before a type condition, and a definition alone is a document. -/
theorem parse_agrees (file : Option Path) (source : String) :
    (∀ c : Construct, c.symbol.alternatives ≠ [] →
      (∀ span, parse file source c.symbol ≠ .error ⟨"maximum nesting depth exceeded", span, .invalidSyntax, []⟩) →
      c.alternative.symbol ∈ c.symbol.alternatives ∧
      (parse file source c.symbol = .ok c ↔
        parse file source c.alternative.symbol = .ok c.alternative ∧
        ∀ b ∈ c.symbol.alternatives, b ≠ c.alternative.symbol → ∀ d, parse file source b ≠ .ok d)) ∧
    (∀ n, parse file source .fragmentName = .ok (.fragmentName n) ↔
      parse file source .name = .ok (.name n) ∧ n.value ≠ "on") ∧
    ∀ d, (∃ doc, parse file source .document = .ok (.document doc) ∧ doc.definitions = [d]) ↔
      parse file source .definition = .ok (.definition d) := by
  refine ⟨?_, fun n => parse_iff_of_derives_iff (fun _ => derives_fragmentName_iff) rfl,
    fun d => parse_document_singleton_iff⟩
  intro c hSome hDeep
  refine ⟨c.symbol_alternative hSome, ?_, ?_⟩
  · intro h
    refine ⟨parse_alternative h, ?_⟩
    intro b hb hOther d hd
    obtain rfl := alternative_eq_of_parse h hb hd
    obtain ⟨ts, last, -, -, -, hDerives, -⟩ := parse_eq_ok hd
    exact hOther hDerives.symbol_eq.symm
  · rintro ⟨h, -⟩
    obtain hOk | ⟨span, hError⟩ := parse_of_alternative h
    · exact hOk
    · exact absurd hError (hDeep span)

/-- A list, which no other kind of value is taken for. -/
theorem parse_agrees_list :
    ∃ c, parse none "[a]" .value = .ok c ∧ c.alternative.symbol = .listValue ∧
      parse none "[a]" .listValue = .ok c.alternative ∧
      ∀ b ∈ GrammarSymbol.value.alternatives, b ≠ .listValue → ∀ d, parse none "[a]" b ≠ .ok d := by
  have hSymbols : (parse none "[a]" .value).toOption.map (fun c => (c.symbol, c.alternative.symbol)) =
      some (.value, .listValue) := by decide +kernel
  cases hParse : parse none "[a]" .value with
  | error e =>
    rw [hParse] at hSymbols
    cases hSymbols
  | ok c =>
    rw [hParse] at hSymbols
    obtain ⟨hSymbol, hList⟩ := Prod.mk.inj (Option.some.inj hSymbols)
    have hSome : c.symbol.alternatives ≠ [] := by
      rw [hSymbol]
      exact List.cons_ne_nil _ _
    have hAgrees := (parse_agrees none "[a]").1 c hSome
    rw [hSymbol, hList, hParse] at hAgrees
    obtain ⟨-, hIff⟩ := hAgrees nofun
    obtain ⟨hAlternative, hOthers⟩ := hIff.mp rfl
    exact ⟨c, rfl, hList, hAlternative, hOthers⟩

end GraphQLSyntax
