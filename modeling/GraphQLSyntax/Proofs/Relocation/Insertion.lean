import GraphQLSyntax.Proofs.Lexing.Cut
import GraphQLSyntax.Proofs.Relocation.Document

/-!
# Ignored text between tokens

The parser reads the kinds of tokens and passes their spans on. So texts whose tokens are of the same kinds are parsed
alike, and ignored text may be put between tokens without any other change than that of positions.
-/

set_option autoImplicit false

namespace GraphQLSyntax

/-- Constructs that differ in their spans at most, or errors of one kind with one message. -/
inductive SameUpToSpans : Except ParseError Construct → Except ParseError Construct → Prop
  | ok {c d : Construct} : c.bare = d.bare → SameUpToSpans (.ok c) (.ok d)
  | error {e f : ParseError} : e.kind = f.kind → e.message = f.message → SameUpToSpans (.error e) (.error f)

theorem sameUpToSpans_of_relocate {x y : Except ParseError Construct}
    (h : relocateParsed .nowhere x = relocateParsed .nowhere y) : SameUpToSpans x y := by
  cases x with
  | ok c =>
    cases y with
    | ok d => exact .ok (Except.ok.inj h)
    | error => cases h
  | error e =>
    cases y with
    | ok => cases h
    | error f =>
      have hErrors := Except.error.inj h
      have hKind : (e.relocate .nowhere).kind = (f.relocate .nowhere).kind := by rw [hErrors]
      have hMessage : (e.relocate .nowhere).message = (f.relocate .nowhere).message := by rw [hErrors]
      exact .error hKind hMessage

theorem map_relocate_nowhere {tokens tokens' : List Token} (h : tokens.map Token.kind = tokens'.map Token.kind) :
    tokens.map (Token.relocate .nowhere) = tokens'.map (Token.relocate .nowhere) := by
  have hKinds : ∀ tokens : List Token, tokens.map (Token.relocate .nowhere) =
      (tokens.map Token.kind).map fun k => ⟨k, ⟨.origin, .origin, none⟩⟩ := by
    intro tokens
    rw [List.map_map]
    rfl
  rw [hKinds, h, ← hKinds]

/-- Nothing but the kinds of the tokens decides what is parsed, and how a failure is reported. -/
theorem parseTokens_sameUpToSpans {tokens tokens' : List Token}
    (h : tokens.map Token.kind = tokens'.map Token.kind) (symbol : GrammarSymbol) :
    SameUpToSpans (parseTokens tokens symbol) (parseTokens tokens' symbol) := by
  apply sameUpToSpans_of_relocate
  rw [← parseTokens_relocate, map_relocate_nowhere h, parseTokens_relocate]

/-- Ignored text at a boundary of a text without faults changes no kind of a token. -/
theorem map_kind_lex_insert {file : Option Path} {source : String} {before run after : List Char}
    (hError : ∀ t ∈ lex file source, t.kind.isError = false) (hSource : source.toList = before ++ after)
    (hBoundary : IsBoundary 0 source.utf8ByteSize (lex file source) (byteLength before))
    (hRun : IgnoredRun true run) :
    (lex file (String.ofList (before ++ run ++ after))).map Token.kind = (lex file source).map Token.kind := by
  have hSize : source.utf8ByteSize = Mark.start.offset + byteLength (before ++ after) := by
    rw [byteLength_eq, ← hSource, String.ofList_toList]
    exact (Nat.zero_add _).symm
  rw [hSize, lex_eq_lexFrom, hSource] at hBoundary
  rw [lex_eq_lexFrom, hSource] at hError
  rw [lex_eq_lexFrom, lex_eq_lexFrom, String.toList_ofList, hSource]
  cases run with
  | nil => rw [List.append_nil]
  | cons c run =>
    obtain ⟨text, rest, ks, hText, hLength, hCut⟩ := exists_cut .start _ hError hBoundary
    obtain ⟨rfl, rfl⟩ := append_inj_of_byteLength hText (hLength.trans (Nat.zero_add _))
    have hKinds := @Cut.map_kind file _ _ _ hCut .start
    have hAfter : ∀ t ∈ lexFrom file (Mark.start.advance before) after, t.kind.isError = false := by
      intro t ht
      have hKind : t.kind ∈ (lexFrom file .start (before ++ after)).map Token.kind := by
        rw [hKinds]
        exact List.mem_append_right ks (List.mem_map_of_mem ht)
      obtain ⟨u, hu, hSame⟩ := List.mem_map.mp hKind
      rw [← hSame]
      exact hError u hu
    rw [(hCut.insert hRun (List.cons_ne_nil c run)).map_kind, hKinds, map_kind_lexFrom _ after hAfter]

/-- Ignored text at a boundary of a text without faults changes nothing but positions. -/
theorem parse_insert_ignored (file : Option Path) (source : String) (before run after : List Char)
    (symbol : GrammarSymbol) (hError : ∀ t ∈ lex file source, t.kind.isError = false)
    (hSource : source.toList = before ++ after)
    (hBoundary : IsBoundary 0 source.utf8ByteSize (lex file source) (byteLength before))
    (hRun : IgnoredRun true run) :
    SameUpToSpans (parse file (String.ofList (before ++ run ++ after)) symbol) (parse file source symbol) :=
  parseTokens_sameUpToSpans (map_kind_lex_insert hError hSource hBoundary hRun) symbol

/-- A comment behind a name, and one behind the open bracket of a text that ends too early. -/
theorem parse_insert_ignored_comment :
    (parse none "\x7ba\x7d" .document).isOk = true ∧ (parse none "\x7b" .document).isOk = false ∧
      SameUpToSpans (parse none "\x7ba,#\x7d\n\x7d" .document) (parse none "\x7ba\x7d" .document) ∧
      SameUpToSpans (parse none "\x7b#\x7d\r" .document) (parse none "\x7b" .document) := by
  have hComment : ∀ c, isLineTerminator c = true → IgnoredRun true ['#', '}', c] := by
    intro c hLine
    apply @IgnoredRun.comment true ['}'] [c]
    · intro d hd
      obtain rfl := List.mem_singleton.mp hd
      rfl
    · intro d hd
      cases hd
      exact congrArg Bool.not hLine
    · exact fun _ => List.cons_ne_nil c []
    · exact .char (by simp [isIgnoredChar, hLine]) .nil
  refine ⟨by decide +kernel, by decide +kernel, ?_, ?_⟩
  · exact parse_insert_ignored none "\x7ba\x7d" ['{', 'a'] [',', '#', '}', '\n'] ['}'] .document (by decide) rfl
      (.inr (.inr (by decide))) (.char rfl (hComment '\n' rfl))
  · exact parse_insert_ignored none "\x7b" ['{'] ['#', '}', '\r'] [] .document (by decide) rfl
      (.inr (.inl (by decide))) (hComment '\r' rfl)

end GraphQLSyntax
