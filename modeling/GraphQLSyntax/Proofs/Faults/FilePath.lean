import GraphQLSyntax.Diagnostic.Snippet
import GraphQLSyntax.Proofs.Faults.Document
import GraphQLSyntax.Proofs.Lexing.Lossless
import GraphQLSyntax.Proofs.Parsing.Language
import GraphQLSyntax.Proofs.Tree.Layout

/-!
# The file of an error

Nodes and errors stand in the file that is parsed. Only the error of an open bracket names no file, because it
stands where the last token ends and not at a token.
-/

set_option autoImplicit false

namespace GraphQLSyntax

/-! ## Tokens and nodes of a file -/

def TokensIn (file : Option Path) (ts : List Token) : Prop := ∀ t ∈ ts, t.span.file = file

def NodesIn (file : Option Path) (ns : List Node) : Prop := ∀ n ∈ ns, n.span.file = file

/-- What is derived from tokens of a file has all its nodes in that file. -/
def StaysIn {α : Type} (file : Option Path) (D : Production α) (walk : α → List Node) : Prop :=
  ∀ ⦃ts a⦄, D ts a → TokensIn file ts → NodesIn file (walk a)

section

variable {file : Option Path} {ts us : List Token}

@[simp] theorem tokensIn_append : TokensIn file (ts ++ us) ↔ TokensIn file ts ∧ TokensIn file us :=
  List.forall_mem_append

@[simp] theorem tokensIn_cons {t : Token} : TokensIn file (t :: ts) ↔ t.span.file = file ∧ TokensIn file ts :=
  List.forall_mem_cons

/-- The tokens of each node are some of those that all is derived from, and its file is the one of the first. -/
theorem Derives.staysIn (symbol : GrammarSymbol) : StaysIn file (Derives symbol) Construct.walk := by
  intro ts n h hFile m hm
  obtain ⟨us, hInfix, hPhrase⟩ := h.exists_phrase m hm
  obtain ⟨first, hFirst, last, -, hSpan⟩ := hPhrase.covers
  rw [hSpan]
  exact hFile first (hInfix.subset (List.mem_of_mem_head? hFirst))

end

theorem Token.ofScan_file (file : Option Path) (m : Mark) (text : List Char) (s : Scan) :
    (Token.ofScan file m text s).span.file = file := by
  unfold Token.ofScan
  split <;> rfl

theorem lexFrom_tokensIn (file : Option Path) (m : Mark) (cs : List Char) :
    TokensIn file (lexFrom file m cs) := by
  induction m, cs using lexFrom_induction file with
  | done m => exact tokensIn_cons.mpr ⟨rfl, fun _ ht => nomatch ht⟩
  | ignored m c cs ts _ ih | comment m c cs ts _ _ ih => exact ih
  | token m c cs ts _ _ ih => exact tokensIn_cons.mpr ⟨Token.ofScan_file _ _ _ _, ih⟩

/-! ## Errors of a file -/

section

variable {file : Option Path} {source : String} {symbol : GrammarSymbol} {e : ParseError}

/-- The end of the input is a token that is never consumed, so some token is always left. -/
theorem consumed_ne_all {ts us : List Token} (hReadable : ∀ t ∈ ts, t.kind.Readable)
    (h : lex file source = ts ++ us) : us ≠ [] := by
  rintro rfl
  obtain ⟨init, last, hTokens, hLast, -⟩ := @lexFrom_snoc file .start source.toList
  rw [← lex_eq_lexFrom, h, List.append_nil] at hTokens
  have hEnd := hReadable last (by rw [hTokens]; simp)
  rw [hLast] at hEnd
  exact hEnd

/-- The error of an open bracket stands after the last token, in no file. -/
theorem unclosed_file {s : ParserState} {P : Prospect} {ts us : List Token}
    (h : Parser.Verdict s P ts us e) {delimiter : String} (hKind : e.kind = .unclosedDelimiter delimiter) :
    e.span.file = none := by
  have hMisplaced : e.kind.isMisplacement = true := by
    rw [hKind]
    rfl
  obtain ⟨_, _, -, -, ⟨_, _, hUnexpected⟩, -⟩ | ⟨-, ⟨_, hEnded⟩, -⟩ | ⟨o, -, hError, -⟩ :=
    h.of_misplacement hMisplaced
  · rw [hUnexpected] at hKind
    cases hKind
  · rw [hEnded] at hKind
    cases hKind
  · rw [hError]
    rfl

/-- Any other error stands in the file. -/
theorem parse_error_file (h : parse file source symbol = .error e)
    (hKind : ∀ delimiter, e.kind ≠ .unclosedDelimiter delimiter) : e.span.file = file := by
  obtain ⟨ts, us, hFails⟩ := parseTokens_failure h
  obtain ⟨t, ht, hFile⟩ | ⟨-, rfl | ⟨delimiter, hUnclosed⟩⟩ := hFails.placed
  · rw [hFile]
    exact lexFrom_tokensIn file .start source.toList t ht
  · exact absurd rfl (consumed_ne_all hFails.readable hFails.rest)
  · exact absurd hUnclosed (hKind delimiter)

end

/-! ## Labels -/

/-- An error is shown under the label of its file. -/
def ParseError.ShownUnder (label : String) (e : ParseError) : Prop :=
  e.oneline = label ++ ":" ++ e.place.label ++ ": error: " ++ e.message ∧
  ∀ source text, e.detailed? source = some text →
    ∃ rest, text = "error: " ++ e.message ++ "\n  --> " ++ label ++ ":" ++ e.place.label ++ "\n" ++ rest

theorem ParseError.shownUnder_location {e : ParseError} {label : String}
    (h : e.location = label ++ ":" ++ e.place.label) : e.ShownUnder label := by
  constructor
  · rw [oneline, h]
  · intro source text hText
    unfold detailed? at hText
    simp only at hText
    split at hText
    · rename_i snippet notes _ _
      cases hText
      exact ⟨snippet ++ String.join notes, by rw [h]; simp only [String.append_assoc]⟩
    · cases hText

/-- All nodes of a file that is parsed stand in it, and so does every error but that of an open bracket, which is
shown as one of an input without a name. -/
theorem parse_file (path : Path) (source : String) (symbol : GrammarSymbol) :
    (∀ c, parse (some path) source symbol = .ok c → ∀ n ∈ c.walk, n.span.file = some path) ∧
    ∀ e, parse (some path) source symbol = .error e →
      ((∀ delimiter, e.kind ≠ .unclosedDelimiter delimiter) →
        e.span.file = some path ∧ e.ShownUnder path.text) ∧
      ∀ delimiter, e.kind = .unclosedDelimiter delimiter → e.span.file = none ∧ e.ShownUnder "<input>" := by
  constructor
  · intro c h
    obtain ⟨us, rest, hTokens, -, hDerives, -, -⟩ := parseTokens_eq_ok h
    have hFile := lexFrom_tokensIn (some path) .start source.toList
    rw [← lex_eq_lexFrom, hTokens] at hFile
    exact Derives.staysIn symbol hDerives (tokensIn_append.mp hFile).1
  · intro e h
    constructor
    · intro hKind
      have hFile := parse_error_file h hKind
      exact ⟨hFile, ParseError.shownUnder_location (by rw [ParseError.location, hFile])⟩
    · intro delimiter hKind
      obtain ⟨ts, us, hFails⟩ := parseTokens_failure h
      have hFile := unclosed_file hFails.verdict hKind
      exact ⟨hFile, ParseError.shownUnder_location (by rw [ParseError.location, hFile])⟩

/-- A value without the colon before it. -/
theorem parse_file_missing_colon :
    ∃ e, parse (some ⟨"q.graphql"⟩) "\x7b f(a 1) \x7d" .document = .error e ∧
      e.span.file = some ⟨"q.graphql"⟩ ∧ e.ShownUnder "q.graphql" := by
  have hError : (reason? (parse (some ⟨"q.graphql"⟩) "\x7b f(a 1) \x7d" .document)).map ParseError.kind =
      some (.unexpectedToken [":"] "1") := by decide +kernel
  obtain ⟨e, hReason, hError⟩ := Option.map_eq_some_iff.mp hError
  have hParse := eq_error_of_reason hReason
  refine ⟨e, hParse, ((parse_file ⟨"q.graphql"⟩ _ .document).2 e hParse).1 ?_⟩
  intro delimiter hKind
  rw [hError] at hKind
  cases hKind

/-- A file whose selection set is not closed. -/
theorem parse_file_unclosed :
    ¬ ∀ (path : Path) (source : String) (symbol : GrammarSymbol) (e : ParseError),
      parse (some path) source symbol = .error e → e.span.file = some path ∧ e.ShownUnder path.text := by
  intro hClaim
  have hLost : (reason? (parse (some ⟨"q.graphql"⟩) "\x7b a" .document)).map (fun e => (e.span.file, e.oneline)) =
      some (none, "<input>:1:4: error: unclosed `\x7b`") := by decide +kernel
  obtain ⟨e, hReason, hShown⟩ := Option.map_eq_some_iff.mp hLost
  have hFile := (hClaim _ _ _ e (eq_error_of_reason hReason)).1
  rw [(Prod.mk.inj hShown).1] at hFile
  cases hFile

end GraphQLSyntax
