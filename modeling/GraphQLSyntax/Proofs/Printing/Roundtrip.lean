import GraphQLSyntax.Proofs.Parsing.Language
import GraphQLSyntax.Proofs.Printing.Definition

/-!
# Printing is undone by parsing

The canonical text of what a text was parsed into is parsed again into the same, but for spans and for
which strings are block strings, and has itself as its canonical text.
-/

set_option autoImplicit false

namespace GraphQLSyntax

variable {ts : List Token}

/-- What restores a node restores the construct that the node is wrapped up in. -/
theorem Reprints.wrapped {α : Type} {D : Production α} {print : α → List Char} {erase : α → α} {a : α}
    (h : Reprints D print erase ts a) (wrap : α → Construct) (hPrint : (wrap a).print = print a)
    (hErase : ∀ b, (wrap b).erase = wrap (erase b)) :
    Reprints (Wrapped wrap D) Construct.print Construct.erase ts (wrap a) := by
  exact h.map wrap hPrint (fun _ b hPhrase => ⟨b, hPhrase, rfl⟩) hErase

theorem Derives.reprints {symbol : GrammarSymbol} {n : Construct} (h : Derives symbol ts n) :
    Reprints (Derives symbol) Construct.print Construct.erase ts n := by
  cases symbol
  all_goals
    obtain ⟨a, hPhrase, rfl⟩ := h
  case listType => exact (hPhrase.mono fun _ _ h => h.reprints).reprints.wrapped _ rfl fun _ => rfl
  case nonNullType => exact (hPhrase.mono fun _ _ h => h.reprints).reprints.wrapped _ rfl fun _ => rfl
  case listValue => exact (hPhrase.mono fun _ _ h => h.reprints).reprints.wrapped _ rfl fun _ => rfl
  case objectValue => exact (hPhrase.mono fun _ _ h => h.reprints).reprints.wrapped _ rfl fun _ => rfl
  case selection => exact (hPhrase.mono fun _ _ h => h.reprints).reprints.wrapped _ rfl fun _ => rfl
  case field => exact (hPhrase.mono fun _ _ h => h.reprints).reprints.wrapped _ rfl fun _ => rfl
  case inlineFragment => exact (hPhrase.mono fun _ _ h => h.reprints).reprints.wrapped _ rfl fun _ => rfl
  all_goals exact hPhrase.reprints.wrapped _ rfl fun _ => rfl

/-- What a text is parsed into can be derived from its tokens before the end of the input. -/
theorem parse_derives {file : Option Path} {source : String} {symbol : GrammarSymbol} {n : Construct}
    (h : parse file source symbol = .ok n) :
    ∃ ts, Lexed ts ∧ Derives symbol ts n ∧ n.nesting ≤ maxDepth := by
  obtain ⟨ts, -, -, -, hLexed, hDerives, hNesting⟩ := parse_eq_ok h
  exact ⟨ts, hLexed, hDerives, hNesting⟩

theorem parse_text (file file' : Option Path) (source : String) (symbol : GrammarSymbol) (n : Construct)
    (h : parse file source symbol = .ok n) :
    ∃ n', parse file' n.text symbol = .ok n' ∧ n'.erase = n.erase ∧ n'.text = n.text := by
  obtain ⟨ts, hLexed, hDerives, hNesting⟩ := parse_derives h
  obtain ⟨ks, hSpells, hReads⟩ := hDerives.reprints hLexed
  obtain ⟨us, last, hLex, hKinds, hLast⟩ := hSpells.lex file'
  obtain ⟨n', hDerives', hErase⟩ := hReads us hKinds
  have hReadable : ∀ u ∈ us, u.kind.Readable := by
    intro u hu
    exact hSpells.readable u.kind (hKinds ▸ List.mem_map_of_mem hu)
  have hNesting' : n'.nesting = n.nesting := by
    rw [← n'.nesting_erase, hErase, n.nesting_erase]
  have hText : n'.text = n.text := by
    rw [Construct.text, ← n'.print_erase, hErase, n.print_erase, Construct.text]
  refine ⟨n', ?_, hErase, hText⟩
  rw [parse, Construct.text, hLex]
  rcases parseTokens_complete hLast hReadable hDerives' with hOk | ⟨hDeep, -⟩
  · exact hOk
  · omega

/-- A query with a keyword, a float with a zero at its end, and a block string. -/
theorem parse_text_query :
    ∃ n n', parse none "query\x7ba(b:[1.50,\"\"\"x\"\"\"])\x7d" .operationDefinition = .ok n ∧
      parse none n.text .operationDefinition = .ok n' ∧ n'.erase = n.erase ∧
      n'.text = "\x7b a(b: [1.5, \"x\"]) \x7d" := by
  have hText : (parse none "query\x7ba(b:[1.50,\"\"\"x\"\"\"])\x7d" .operationDefinition).toOption.map
      Construct.text = some "\x7b a(b: [1.5, \"x\"]) \x7d" := by decide +kernel
  cases hParse : parse none "query\x7ba(b:[1.50,\"\"\"x\"\"\"])\x7d" .operationDefinition with
  | error =>
    rw [hParse] at hText
    cases hText
  | ok n =>
    rw [hParse] at hText
    obtain ⟨n', hParse', hErase, hSame⟩ := parse_text none none _ _ n hParse
    exact ⟨n, n', rfl, hParse', hErase, hSame.trans (Option.some.inj hText)⟩

end GraphQLSyntax
