import GraphQLSyntax.Proofs.Parsing.Language
import GraphQLSyntax.Proofs.Relocation.Erasure
import GraphQLSyntax.Proofs.Relocation.Insertion

/-!
# Documents one after the other

A line terminator ends whatever the text before it has left open, so the text after it is read as if it stood alone, at
another place. Two documents with a line terminator between them are one document with the definitions of both.
-/

set_option autoImplicit false

namespace GraphQLSyntax

variable {file : Option Path}

/-! ## Texts -/

/-- A line terminator closes a comment. -/
theorem IgnoredRun.append_line {gap : List Char} (h : IgnoredRun false gap) : IgnoredRun true (gap ++ ['\n']) := by
  induction h with
  | nil => exact .char rfl .nil
  | char hIgnored _ ih => exact .char hIgnored ih
  | @comment body cs hBody hLine _ _ ih =>
    rw [List.cons_append, List.append_assoc]
    refine .comment hBody ?_ (fun _ => List.append_ne_nil_of_right_ne_nil _ (List.cons_ne_nil _ _)) ih
    cases cs with
    | nil =>
      intro c hc
      obtain rfl := Option.mem_some.mp hc
      rfl
    | cons c cs => exact hLine

/-- The tokens before a line terminator do not depend on what comes after it. -/
theorem lexFrom_append_line (m : Mark) (cs more : List Char) {ts : List Token} {last : Token}
    (h : lexFrom file m cs = ts ++ [last]) (hError : ∀ t ∈ ts, t.kind.isError = false) :
    lexFrom file m (cs ++ '\n' :: more) = ts ++ lexFrom file (m.advance (cs ++ ['\n'])) more := by
  induction ts generalizing m cs with
  | nil =>
    rw [List.append_cons]
    exact lexFrom_run (lexFrom_end m cs h).append_line (.inl rfl) m
  | cons t ts ih =>
    obtain ⟨gap, rest, rfl, hGap, hWell, hStands, hSpan, hRest⟩ :=
      lexFrom_cons m cs h (List.append_ne_nil_of_right_ne_nil ts (List.cons_ne_nil last [])) (hError t (.head ts))
    have hError' : ∀ t ∈ ts, t.kind.isError = false := fun u hu => hError u (.tail t hu)
    -- The token ends where it did, as only ignored text comes after the other tokens.
    have hStands' : t.kind.StandsBefore (rest ++ '\n' :: more) := by
      obtain ⟨text, after, rfl, hCut, hAfter, -⟩ := lexFrom_cut _ rest hRest (List.cons_ne_nil last []) hError'
      have hDelimited : Delimited ((after ++ ['\n']) ++ more) :=
        (lexFrom_end _ after hAfter).append_line.delimited
          (.inl (List.append_ne_nil_of_right_ne_nil after (List.cons_ne_nil _ _)))
      rw [List.append_assoc, List.append_cons]
      exact hStands.exchange hWell hCut hDelimited
    rw [List.append_assoc, List.append_assoc, lexFrom_run hGap (.inl rfl), lexFrom_spelling _ hWell hStands',
      ih _ rest hRest hError', ← hSpan]
    simp only [Mark.advance_append, List.append_assoc, List.cons_append]

/-! ## Documents -/

theorem Parser.result_map {α β : Type} (p : Parser α) (g : α → β) (tokens : List Token) :
    Parser.result (do return g (← p)) tokens = (p.result tokens).map g := by
  rw [result, result, EStateM.run, EStateM.run]
  cases hRun : p (.ofTokens tokens) with
  | ok a s =>
    rw [bind_of_ok hRun]
    rfl
  | error e s =>
    rw [bind_of_error hRun]
    rfl

theorem parse_document (source : String) :
    parse file source .document = (parseDocument file source).map Construct.document := by
  have hWhole : Parser.whole (Parser.construct .document) =
      (do return Construct.document (← Parser.whole Parser.document)) := by
    simp only [Parser.whole, Parser.construct, bind_assoc, pure_bind]
  rw [parse, parseTokens, hWhole, Parser.result_map, parseDocument]

theorem parse_document_eq_ok_iff {source : String} {d : Document} :
    parse file source .document = .ok (.document d) ↔ parseDocument file source = .ok d := by
  rw [parse_document]
  cases parseDocument file source <;> simp [Except.map]

theorem intercalate_append {α : Type} (separator : List α) {xs ys : List (List α)} (hxs : xs ≠ []) (hys : ys ≠ []) :
    separator.intercalate (xs ++ ys) = separator.intercalate xs ++ (separator ++ separator.intercalate ys) := by
  induction xs with
  | nil => exact absurd rfl hxs
  | cons x xs ih =>
    cases xs with
    | nil =>
      rw [List.singleton_append, List.intercalate_cons_of_ne_nil hys, List.intercalate_singleton, List.append_assoc]
    | cons x' xs =>
      rw [List.cons_append, List.cons_append, List.intercalate_cons_cons, ← List.cons_append, ih (List.cons_ne_nil _ _),
        List.intercalate_cons_cons]
      simp only [List.append_assoc]

/-- Two documents make up one, whose definitions are those of the first and then those of the second. -/
theorem DocumentPhrase.append {ts us : List Token} {d e : Document} (h : DocumentPhrase ts d)
    (h' : DocumentPhrase us e) : DocumentPhrase (ts ++ us) ⟨d.definitions ++ e.definitions, spanOver (ts ++ us)⟩ := by
  obtain ⟨hNonempty, hItems⟩ := h
  obtain ⟨-, hItems'⟩ := h'
  exact .mk (List.append_ne_nil_of_left_ne_nil hNonempty _) (hItems.append hItems')

theorem DocumentPhrase.definitions_ne_nil {ts : List Token} {d : Document} (h : DocumentPhrase ts d) :
    d.definitions ≠ [] := by
  obtain ⟨hNonempty, -⟩ := h
  exact hNonempty

/-- A document is read alike wherever its text stands. -/
theorem exists_documentPhrase (m : Mark) {source : String} {e : Document} (h : parseDocument file source = .ok e) :
    ∃ us last e', lexFrom file m source.toList = us ++ [last] ∧ last.kind = .endOfInput ∧
      (∀ t ∈ us, t.kind.Readable) ∧ DocumentPhrase us e' ∧ (Construct.document e').nesting ≤ maxDepth ∧
      e'.definitions.map (Definition.relocate .nowhere) = e.definitions.map (Definition.relocate .nowhere) := by
  have hParse : parse file source .document = .ok (.document e) := parse_document_eq_ok_iff.mpr h
  obtain ⟨us, last, hLex, hLast, hTokens⟩ := @lexFrom_snoc file m source.toList
  have hKinds : (us ++ [last]).map Token.kind = (lex file source).map Token.kind := by
    rw [← hLex]
    exact map_kind_lexFrom .start source.toList (isError_of_parse hParse) file m
  have hSame := parseTokens_sameUpToSpans hKinds .document
  rw [parse] at hParse
  rw [hParse] at hSame
  cases hRead : parseTokens (us ++ [last]) .document with
  | error =>
    rw [hRead] at hSame
    cases hSame
  | ok c =>
    rw [hRead] at hSame
    obtain ⟨⟨e', hPhrase, rfl⟩, hReadable, hNesting⟩ := parseTokens_sound hLast (fun t ht => (hTokens t ht).1) hRead
    cases hSame with
    | ok hBare =>
      have hBare : e'.relocate .nowhere = e.relocate .nowhere := Construct.document.inj hBare
      exact ⟨us, last, e', hLex, hLast, hReadable, hPhrase, hNesting, congrArg Document.definitions hBare⟩

theorem Definition.print_of_relocate {ds es : List Definition}
    (h : ds.map (Definition.relocate .nowhere) = es.map (Definition.relocate .nowhere)) :
    ds.map Definition.print = es.map Definition.print := by
  have hPrint : ∀ ds : List Definition,
      ds.map Definition.print = (ds.map (Definition.relocate .nowhere)).map Definition.print := by
    intro ds
    rw [List.map_map]
    exact List.map_congr_left fun d _ => (d.print_relocate .nowhere).symm
  rw [hPrint ds, h, ← hPrint es]

/-- Two documents with a line terminator between them. The definitions of the second one only stand elsewhere. -/
theorem parseDocument_append (file : Option Path) (a b : String) (d e : Document) (ha : parseDocument file a = .ok d)
    (hb : parseDocument file b = .ok e) :
    ∃ f later, parseDocument file (a ++ "\n" ++ b) = .ok f ∧ f.definitions = d.definitions ++ later ∧
      later.map (Definition.relocate .nowhere) = e.definitions.map (Definition.relocate .nowhere) ∧
      f.print = d.print ++ ['\n', '\n'] ++ e.print := by
  have hParse : parse file a .document = .ok (.document d) := parse_document_eq_ok_iff.mpr ha
  obtain ⟨ts, last, hLex, -, hTokens, ⟨_, hPhrase, hSame⟩, hNesting⟩ := parse_eq_ok hParse
  cases hSame
  obtain ⟨us, last', e', hLater, hLast', hReadable, hPhrase', hNesting', hSame⟩ :=
    exists_documentPhrase (Mark.start.advance (a.toList ++ ['\n'])) hb
  have hError : ∀ t ∈ ts, t.kind.isError = false :=
    fun t ht => isError_of_parse hParse t (hLex ▸ List.mem_append_left [last] ht)
  have hLexBoth : lex file (a ++ "\n" ++ b) = (ts ++ us) ++ [last'] := by
    rw [lex_eq_lexFrom, String.toList_append, String.toList_append, List.append_assoc, List.append_assoc, ← hLater]
    exact lexFrom_append_line .start a.toList b.toList hLex hError
  have hReadableBoth : ∀ t ∈ ts ++ us, t.kind.Readable := by
    intro t ht
    rcases List.mem_append.mp ht with ht | ht
    · exact (hTokens t ht).2
    · exact hReadable t ht
  have hRoom : (Construct.document ⟨d.definitions ++ e'.definitions, spanOver (ts ++ us)⟩).nesting ≤ maxDepth := by
    change deepest Definition.nesting (d.definitions ++ e'.definitions) ≤ maxDepth
    rw [deepest_append]
    exact Nat.max_le.mpr ⟨hNesting, hNesting'⟩
  have hDerives : Derives .document (ts ++ us) (.document ⟨d.definitions ++ e'.definitions, spanOver (ts ++ us)⟩) :=
    ⟨_, hPhrase.append hPhrase', rfl⟩
  refine ⟨_, e'.definitions,
    parse_document_eq_ok_iff.mp (parse_of_derives hLexBoth hLast' hReadableBoth hDerives hRoom), rfl, hSame, ?_⟩
  have hPrint : e'.print = e.print := congrArg ['\n', '\n'].intercalate (Definition.print_of_relocate hSame)
  rw [← hPrint, Document.print, List.map_append, List.append_assoc]
  exact intercalate_append ['\n', '\n'] (mt List.map_eq_nil_iff.mp hPhrase.definitions_ne_nil)
    (mt List.map_eq_nil_iff.mp hPhrase'.definitions_ne_nil)

/-- The first document ends in a comment, and the second one starts with a comma. -/
theorem parseDocument_append_comment :
    ∃ d e f later, parseDocument none "\x7ba\x7d#b" = .ok d ∧ parseDocument none ",query q\x7bb\x7d\r" = .ok e ∧
      parseDocument none "\x7ba\x7d#b\n,query q\x7bb\x7d\r" = .ok f ∧ f.definitions = d.definitions ++ later ∧
      later.map (Definition.relocate .nowhere) = e.definitions.map (Definition.relocate .nowhere) ∧
      f.print = d.print ++ ['\n', '\n'] ++ e.print := by
  have hOk : ∀ source, (parseDocument none source).isOk = true → ∃ d, parseDocument none source = .ok d := by
    intro source h
    cases hParse : parseDocument none source with
    | ok d => exact ⟨d, rfl⟩
    | error e =>
      rw [hParse] at h
      cases h
  obtain ⟨d, hd⟩ := hOk "\x7ba\x7d#b" (by decide +kernel)
  obtain ⟨e, he⟩ := hOk ",query q\x7bb\x7d\r" (by decide +kernel)
  obtain ⟨f, later, hf, hAppend⟩ := parseDocument_append none "\x7ba\x7d#b" ",query q\x7bb\x7d\r" d e hd he
  exact ⟨d, e, f, later, hd, he, hf, hAppend⟩

end GraphQLSyntax
