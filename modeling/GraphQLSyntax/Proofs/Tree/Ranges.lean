import GraphQLSyntax.Proofs.Parsing.Language
import GraphQLSyntax.Proofs.Tree.Layout

/-!
# The ranges of nodes

In a text the tokens stand one after the other, so the range of a node contains the ranges of its children, which stand
one after the other too.
-/

set_option autoImplicit false

namespace GraphQLSyntax

/-- No range is empty, and each one ends before the next one starts. -/
structure InOrder {α : Type} (span : α → Span) (as : List α) : Prop where
  nonempty : ∀ a ∈ as, (span a).start.offset < (span a).stop.offset
  sorted : as.Pairwise fun a b => (span a).stop.offset ≤ (span b).start.offset

/-- The ranges of the children of a node lie inside its own, one after the other. -/
structure Node.NestsChildren (n : Node) : Prop where
  inOrder : InOrder Node.span n.children
  inside : ∀ m ∈ n.children, n.span.start.offset ≤ m.span.start.offset ∧ m.span.stop.offset ≤ n.span.stop.offset

/-! ## Tokens in order -/

section

variable {ts us : List Token}

theorem InOrder.sublist (h : InOrder Token.span us) (hSub : ts.Sublist us) : InOrder Token.span ts where
  nonempty t ht := h.nonempty t (hSub.subset ht)
  sorted := h.sorted.sublist hSub

theorem Segments.inOrder {n : Nat} {text : List Char} (h : Segments n text ts) :
    InOrder Token.span ts ∧ ∀ t ∈ ts, n ≤ t.span.start.offset := by
  induction h with
  | done => exact ⟨⟨by simp, .nil⟩, by simp⟩
  | @token n gap rest t ts _ hWell hStart hStop _ ih =>
    obtain ⟨⟨hNonempty, hSorted⟩, hAfter⟩ := ih
    have hLength : 0 < byteLength t.kind.spelling := by
      obtain ⟨c, cs, hText, -⟩ := hWell.exists_cons
      have hSize := c.utf8Size_pos
      rw [hText, byteLength]
      omega
    refine ⟨⟨?_, List.pairwise_cons.mpr ⟨hAfter, hSorted⟩⟩, ?_⟩
    · exact List.forall_mem_cons.mpr ⟨by omega, hNonempty⟩
    · refine List.forall_mem_cons.mpr ⟨by omega, ?_⟩
      intro u hu
      have hNext := hAfter u hu
      omega

theorem Span.Covers.mem {s : Span} (h : s.Covers ts) :
    ∃ first ∈ ts, ∃ last ∈ ts, s.start = first.span.start ∧ s.stop = last.span.stop := by
  obtain ⟨first, hFirst, last, hLast, rfl⟩ := h
  exact ⟨first, List.mem_of_mem_head? hFirst, last, List.mem_of_getLast? hLast, rfl, rfl⟩

/-- A span over tokens in order contains each of them. -/
theorem Span.Covers.contains {s : Span} (h : s.Covers ts) (hOrder : InOrder Token.span ts) :
    ∀ t ∈ ts, s.start.offset ≤ t.span.start.offset ∧ t.span.stop.offset ≤ s.stop.offset := by
  obtain ⟨first, hFirst, last, hLast, rfl⟩ := h
  intro t ht
  constructor
  · obtain ⟨rest, rfl⟩ := List.head?_eq_some_iff.mp hFirst
    have hNonempty := hOrder.nonempty first (List.mem_cons_self ..)
    rcases List.mem_cons.mp ht with rfl | ht
    · exact Nat.le_refl _
    · have hNext := (List.pairwise_cons.mp hOrder.sorted).1 t ht
      dsimp only
      omega
  · obtain ⟨init, rfl⟩ := List.getLast?_eq_some_iff.mp hLast
    have hNonempty := hOrder.nonempty last (by simp)
    rcases List.mem_append.mp ht with ht | ht
    · have hNext := (List.pairwise_append.mp hOrder.sorted).2.2 t ht last (by simp)
      dsimp only
      omega
    · obtain rfl := List.mem_singleton.mp ht
      exact Nat.le_refl _

end

/-! ## Nodes in order -/

section

variable {ts : List Token} {n : Node}

theorem Node.Phrase.nonempty (h : n.Phrase ts) (hOrder : InOrder Token.span ts) :
    n.span.start.offset < n.span.stop.offset := by
  obtain ⟨first, hFirst, last, hLast, hStart, hStop⟩ := h.covers.mem
  have hToken := hOrder.nonempty first hFirst
  have hInside := (h.covers.contains hOrder first hFirst).2
  rw [hStart]
  omega

theorem Laid.inOrder {ns : List Node} (h : Laid ts ns) (hOrder : InOrder Token.span ts) : InOrder Node.span ns := by
  induction h with
  | nil => exact ⟨by simp, .nil⟩
  | @cons gap ts us n ns hNode hRest ih =>
    have hOrder' := hOrder.sublist (List.sublist_append_right gap (ts ++ us))
    obtain ⟨hNonempty, hSorted⟩ := ih (hOrder'.sublist (List.sublist_append_right ts us))
    constructor
    · exact List.forall_mem_cons.mpr ⟨hNode.nonempty (hOrder'.sublist (List.sublist_append_left ts us)), hNonempty⟩
    · refine List.pairwise_cons.mpr ⟨?_, hSorted⟩
      intro m hm
      obtain ⟨vs, hInfix, hPhrase⟩ := hRest.infix_of_mem m hm
      obtain ⟨-, -, last, hLast, -, hStop⟩ := hNode.covers.mem
      obtain ⟨first, hFirst, -, -, hStart, -⟩ := hPhrase.covers.mem
      rw [hStop, hStart]
      exact (List.pairwise_append.mp hOrder'.sorted).2.2 last hLast first (hInfix.subset hFirst)

theorem Node.Phrase.nestsChildren (h : n.Phrase ts) (hOrder : InOrder Token.span ts) : n.NestsChildren := by
  refine ⟨h.laid.inOrder hOrder, ?_⟩
  intro m hm
  obtain ⟨us, hInfix, hPhrase⟩ := h.laid.infix_of_mem m hm
  obtain ⟨first, hFirst, last, hLast, hStart, hStop⟩ := hPhrase.covers.mem
  rw [hStart, hStop]
  exact ⟨(h.covers.contains hOrder first (hInfix.subset hFirst)).1,
    (h.covers.contains hOrder last (hInfix.subset hLast)).2⟩

end

/-! ## What is parsed -/

theorem lex_inOrder {file : Option Path} {source : String} {ts : List Token} {last : Token}
    (hLex : lex file source = ts ++ [last]) (hError : ∀ t ∈ lex file source, t.kind.isError = false) :
    InOrder Token.span ts := by
  obtain ⟨us, last', hTokens, -, hSegments⟩ := segments_of_lexFrom .start source.toList hError
  rw [lex_eq_lexFrom, hTokens] at hLex
  obtain ⟨rfl, -⟩ := List.append_inj' hLex rfl
  exact hSegments.inOrder.1

/-- Every node spans the tokens of its production, from the first to the last, and those of its children stand among
them in order. So in a text, where tokens are in order, ranges are nested as the nodes are. -/
theorem parse_spans :
    (∀ (tokens : List Token) (symbol : GrammarSymbol) (n : Construct), parseTokens tokens symbol = .ok n →
      ∃ us rest, tokens = us ++ rest ∧ Derives symbol us n ∧
        ∀ m ∈ n.walk, ∃ ts, ts <:+: us ∧ m.Phrase ts ∧ m.span.Covers ts ∧ Laid ts m.children) ∧
    ∀ (file : Option Path) (source : String) (symbol : GrammarSymbol) (n : Construct),
      parse file source symbol = .ok n → ∀ m ∈ n.walk, m.NestsChildren := by
  constructor
  · intro tokens symbol n h
    obtain ⟨us, rest, hTokens, -, hDerives, -⟩ := parseTokens_eq_ok h
    refine ⟨us, rest, hTokens, hDerives, ?_⟩
    intro m hm
    obtain ⟨ts, hInfix, hPhrase⟩ := hDerives.exists_phrase m hm
    exact ⟨ts, hInfix, hPhrase, hPhrase.covers, hPhrase.laid⟩
  · intro file source symbol n h m hm
    obtain ⟨ts, last, hLex, -, -, hDerives, -⟩ := parse_eq_ok h
    obtain ⟨us, hInfix, hPhrase⟩ := hDerives.exists_phrase m hm
    have hOrder := lex_inOrder hLex (isError_of_parse h)
    exact hPhrase.nestsChildren (hOrder.sublist hInfix.sublist)

/-- A field with an alias and an argument, and a comment behind it that belongs to no node. -/
theorem parse_spans_field :
    ∃ n, parse none "\x7ba: b(c: [1])#\n\x7d" .selectionSet = .ok n ∧ n.walk.length = 9 ∧
      (∃ us rest, lex none "\x7ba: b(c: [1])#\n\x7d" = us ++ rest ∧ Derives .selectionSet us n ∧
        ∀ m ∈ n.walk, ∃ ts, ts <:+: us ∧ m.Phrase ts ∧ m.span.Covers ts ∧ Laid ts m.children) ∧
      ∀ m ∈ n.walk, m.NestsChildren := by
  have hLength : (parse none "\x7ba: b(c: [1])#\n\x7d" .selectionSet).toOption.map (fun n => n.walk.length) =
      some 9 := by decide +kernel
  cases hParse : parse none "\x7ba: b(c: [1])#\n\x7d" .selectionSet with
  | error e =>
    rw [hParse] at hLength
    cases hLength
  | ok n =>
    rw [hParse] at hLength
    exact ⟨n, rfl, Option.some.inj hLength, parse_spans.1 _ _ n hParse, parse_spans.2 none _ _ n hParse⟩

end GraphQLSyntax
