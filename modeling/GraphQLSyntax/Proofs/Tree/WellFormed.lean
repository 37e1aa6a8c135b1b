import GraphQLSyntax.Proofs.Grammar.Alternative
import GraphQLSyntax.Proofs.Parsing.Language
import GraphQLSyntax.Proofs.Printing.Value
import GraphQLSyntax.Proofs.StringLiteral.Value
import GraphQLSyntax.Proofs.Tree.Layout

/-!
# What nodes never hold

Nodes can be built by hand that no text stands for: a name with a space in it, an enum value that is a keyword, an empty
selection set. None of them comes from a text. What the lexer sees to of the text of a token and what the parser
refuses hold together of every node that is parsed.
-/

set_option autoImplicit false

namespace GraphQLSyntax

def IsLetter (c : Char) : Prop := 'A' ≤ c ∧ c ≤ 'Z' ∨ 'a' ≤ c ∧ c ≤ 'z'

/-- An underscore or a letter, and then underscores, digits and letters. -/
def IsNameText (text : String) : Prop :=
  ∃ c cs, text.toList = c :: cs ∧ (c = '_' ∨ IsLetter c) ∧
    ∀ d ∈ cs, d = '_' ∨ '0' ≤ d ∧ d ≤ '9' ∨ IsLetter d

/-- What holds of a node apart from the nodes inside it. -/
def Node.WellFormed : Node → Prop
  | document d => d.definitions ≠ []
  | selectionSet s => s.selections ≠ []
  | fragmentDefinition d => d.name.value ≠ "on"
  | fragmentSpread s => s.name.value ≠ "on"
  | namedType t => t.name.value ≠ "null"
  | name n => IsNameText n.value
  | reference v => IsNameText v.name.value
  | enumValue v => IsNameText v.value ∧ v.value ≠ "true" ∧ v.value ≠ "false" ∧ v.value ≠ "null"
  | floatValue v => v.value.isFinite = true
  | stringValue v => BasicPlane v.value.toList
  | operationDefinition _ | variableDefinition _ | field _ | responseAlias _ | argument _ | directive _
  | inlineFragment _ | typeCondition _ | type _ | listType _ | nonNullType _ | nullableType _ | listValue _
  | objectValue _ | objectField _ | booleanValue _ | intValue _ | nullValue _ => True

/-- What holds of a construct apart from its nodes. Only lists that are parsed for themselves are never empty. -/
def Construct.WellFormed : Construct → Prop
  | variableDefinitions ds => ds ≠ []
  | arguments as => as ≠ []
  | directives ds => ds ≠ []
  | fragmentName n => n.value ≠ "on"
  | _ => True

/-! ## Names -/

theorem isLetter_of_isAlpha {c : Char} (h : c.isAlpha = true) : IsLetter c := by
  rcases (Bool.or_eq_true _ _).mp h with hUpper | hLower
  · exact .inl (of_decide_eq_true hUpper)
  · obtain ⟨hLow, hHigh⟩ := (Bool.and_eq_true _ _).mp hLower
    exact .inr ⟨of_decide_eq_true hLow, of_decide_eq_true hHigh⟩

theorem NameText.isNameText {text : String} (h : NameText text.toList) : IsNameText text := by
  generalize hText : text.toList = cs at h
  cases h with
  | @mk c cs hStart hRest =>
    rw [isNameStart, Bool.or_eq_true, decide_eq_true_eq] at hStart
    refine ⟨c, cs, hText, hStart.imp_right isLetter_of_isAlpha, ?_⟩
    intro d hd
    have hContinue := hRest d hd
    rw [isNameContinue, Bool.or_eq_true, decide_eq_true_eq, Char.isAlphanum, Bool.or_eq_true] at hContinue
    rcases hContinue with hLine | hAlpha | hDigit
    · exact .inl hLine
    · exact .inr (.inr (isLetter_of_isAlpha hAlpha))
    · rw [Char.isDigit, Bool.and_eq_true] at hDigit
      exact .inr (.inl ⟨of_decide_eq_true hDigit.1, of_decide_eq_true hDigit.2⟩)

section

variable {ts : List Token}

/-- A name is the text of its token, which is a word. -/
theorem NamePhrase.isNameText {n : Name} (h : NamePhrase ts n) (hLexed : Lexed ts) : IsNameText n.value := by
  cases h with
  | @mk t text hText =>
    obtain ⟨hWell, -⟩ := hLexed t (List.mem_singleton_self t)
    have hWord : t.kind.isWord = true := by
      cases hKind : t.kind with
      | name | boolean | null => rfl
      | _ =>
        rw [hKind] at hText
        cases hText
    have hName := (hWell.word hWord).1
    rw [spelling_of_nameText? hText] at hName
    exact hName.isNameText

theorem FragmentNamePhrase.value_ne {n : Name} (h : FragmentNamePhrase ts n) : n.value ≠ "on" :=
  (derives_fragmentName_iff.mp ⟨n, h, rfl⟩).2

/-- A name is no keyword, so only the token of the keyword could be the name that a type never has. -/
theorem NamedTypePhrase.value_ne {t : NamedType} (h : NamedTypePhrase ts t) (hLexed : Lexed ts) :
    t.name.value ≠ "null" := by
  cases h with
  | @mk t n hNull hName =>
    obtain ⟨hText⟩ := hName
    obtain ⟨hWell, -⟩ := hLexed t (List.mem_singleton_self t)
    rintro rfl
    cases hKind : t.kind with
    | name text =>
      rw [hKind] at hWell hText
      cases hText
      exact hWell.2.2.2 rfl
    | boolean value =>
      rw [hKind] at hText
      cases value <;> exact absurd (Option.some.inj hText) (by decide)
    | null => exact hNull hKind
    | _ =>
      rw [hKind] at hText
      cases hText

/-! ## Literals -/

theorem WordPhrase.enum_wellFormed {v : EnumValue} (h : WordPhrase ts (.enum v)) (hLexed : Lexed ts) :
    (Node.enumValue v).WellFormed := by
  cases h with
  | @enum t text hKind =>
    obtain ⟨hWell, -⟩ := hLexed t (List.mem_singleton_self t)
    rw [hKind] at hWell
    exact ⟨hWell.1.isNameText, hWell.2⟩

theorem FloatPhrase.isFinite {v : FloatValue} (h : FloatPhrase ts v) (hLexed : Lexed ts) : v.value.isFinite = true := by
  cases h with
  | @mk t raw hKind =>
    obtain ⟨-, hReadable⟩ := hLexed t (List.mem_singleton_self t)
    rw [hKind] at hReadable
    obtain ⟨x, hText, hFinite⟩ := hReadable
    rw [floatLiteral, hText]
    exact hFinite

theorem StringPhrase.basicPlane {v : StringValue} (h : StringPhrase ts v) (hLexed : Lexed ts) :
    BasicPlane v.value.toList := by
  cases h with
  | @mk t raw hKind =>
    obtain ⟨hWell, hReadable⟩ := hLexed t (List.mem_singleton_self t)
    rw [hKind] at hWell hReadable
    obtain ⟨value, hValue⟩ := hReadable
    rw [stringLiteral, hValue]
    exact decodeStringLiteral_basic hWell hValue

/-! ## Nodes and constructs -/

theorem Node.Phrase.wellFormed {m : Node} (h : m.Phrase ts) (hLexed : Lexed ts) : m.WellFormed := by
  cases m with
  | document d | selectionSet s =>
    obtain ⟨hSome, -⟩ := h
    exact hSome
  | fragmentDefinition d | fragmentSpread s =>
    obtain ⟨-, hName, -⟩ := h
    exact hName.value_ne
  | namedType t => exact NamedTypePhrase.value_ne h hLexed
  | name n => exact NamePhrase.isNameText h hLexed
  | reference v =>
    obtain ⟨-, hName⟩ := h
    exact hName.isNameText (lexed_cons.mp hLexed).2
  | enumValue v => exact WordPhrase.enum_wellFormed h hLexed
  | floatValue v => exact FloatPhrase.isFinite h hLexed
  | stringValue v => exact StringPhrase.basicPlane h hLexed
  | _ => trivial

theorem Derives.wellFormed {symbol : GrammarSymbol} {c : Construct} (h : Derives symbol ts c) : c.WellFormed := by
  cases symbol
  all_goals
    obtain ⟨a, hPhrase, rfl⟩ := h
  case variableDefinitions | arguments | directives =>
    obtain ⟨hSome, -⟩ := hPhrase
    exact hSome
  case fragmentName => exact hPhrase.value_ne
  all_goals trivial

end

/-- Whatever symbol a text is parsed as, the construct and all nodes inside it are well formed. -/
theorem parse_wellFormed (file : Option Path) (source : String) (symbol : GrammarSymbol) (c : Construct)
    (h : parse file source symbol = .ok c) : c.WellFormed ∧ ∀ m ∈ c.walk, m.WellFormed := by
  obtain ⟨ts, last, -, -, hLexed, hDerives, -⟩ := parse_eq_ok h
  refine ⟨hDerives.wellFormed, ?_⟩
  intro m hm
  obtain ⟨us, hInfix, hPhrase⟩ := hDerives.exists_phrase m hm
  exact hPhrase.wellFormed fun t ht => hLexed t (hInfix.subset ht)

/-- A spread with directives, next to a field whose arguments hold literals of all sorts. -/
theorem parse_wellFormed_selectionSet :
    ∃ c, parse none "\x7ba(b:[$c E 1.5 \"d\"]) ...f@g(on:null)\x7d" .selectionSet = .ok c ∧ c.walk.length = 18 ∧
      c.WellFormed ∧ ∀ m ∈ c.walk, m.WellFormed := by
  have hWalk : (parse none "\x7ba(b:[$c E 1.5 \"d\"]) ...f@g(on:null)\x7d" .selectionSet).toOption.map
      (fun c => c.walk.length) = some 18 := by decide +kernel
  cases hParse : parse none "\x7ba(b:[$c E 1.5 \"d\"]) ...f@g(on:null)\x7d" .selectionSet with
  | error e =>
    rw [hParse] at hWalk
    cases hWalk
  | ok c =>
    rw [hParse] at hWalk
    exact ⟨c, rfl, Option.some.inj hWalk, parse_wellFormed none _ _ c hParse⟩

end GraphQLSyntax
