import GraphQLSyntax.Proofs.Lexing.Lossless
import GraphQLSyntax.Proofs.Lexing.Run

/-!
# The order of tokens

Faults included, each token starts where the one before it ends or later. The last token is the end of the input and
stands at the end of the text, behind whatever is ignored there.
-/

set_option autoImplicit false

namespace GraphQLSyntax

variable {file : Option Path}

theorem Mark.offset_le_advance (m : Mark) (text : List Char) : m.offset ≤ (m.advance text).offset := by
  rw [m.advance_offset]
  omega

theorem Token.ofScan_stop (m : Mark) (text : List Char) (s : Scan) :
    (Token.ofScan file m text s).span.stop = (m.advance (text.take (s.extra + 1))).position := by
  unfold Token.ofScan
  split <;> rfl

theorem Token.le_ofScan_start (m : Mark) (text : List Char) (s : Scan) :
    m.offset ≤ (Token.ofScan file m text s).span.start.offset := by
  unfold Token.ofScan
  split
  · exact Nat.le_refl _
  · exact m.offset_le_advance _

/-- A token that is no fault starts where it is scanned and has a character at least. -/
theorem Token.ofScan_nonempty {m : Mark} {c : Char} {cs : List Char} {s : Scan}
    (h : (Token.ofScan file m (c :: cs) s).kind.isError = false) :
    (Token.ofScan file m (c :: cs) s).span.start.offset < (Token.ofScan file m (c :: cs) s).span.stop.offset := by
  have hStop : m.offset < (m.advance ((c :: cs).take (s.extra + 1))).offset := by
    have hSize := c.utf8Size_pos
    rw [m.advance_offset, List.take_succ_cons, byteLength]
    omega
  unfold Token.ofScan at h ⊢
  split at h
  · exact hStop
  · cases h

/-! ## Tokens one after the other -/

theorem le_start_of_lexFrom (m : Mark) (cs : List Char) :
    ∀ t ∈ lexFrom file m cs, m.offset ≤ t.span.start.offset := by
  induction m, cs using lexFrom_induction file with
  | done m =>
    intro t ht
    rw [List.mem_singleton.mp ht]
    exact Nat.le_refl _
  | ignored m c cs ts _ ih => exact fun t ht => Nat.le_trans (m.offset_le_advance [c]) (ih t ht)
  | comment m body cs ts _ _ ih => exact fun t ht => Nat.le_trans (m.offset_le_advance ('#' :: body)) (ih t ht)
  | token m c cs ts _ _ ih =>
    refine List.forall_mem_cons.mpr ⟨Token.le_ofScan_start m _ _, ?_⟩
    exact fun t ht => Nat.le_trans (m.offset_le_advance _) (ih t ht)

/-- No token starts before those in front of it end, and the ones that are neither faults nor the end of the input
have a character at least. -/
theorem lexFrom_sorted (m : Mark) (cs : List Char) :
    (lexFrom file m cs).Pairwise (fun t u => t.span.stop.offset ≤ u.span.start.offset) ∧
      ∀ t ∈ lexFrom file m cs, t.kind.isError = false → t.kind ≠ .endOfInput →
        t.span.start.offset < t.span.stop.offset := by
  induction m, cs using text_induction with
  | done m =>
    refine ⟨List.pairwise_singleton _ _, ?_⟩
    intro t ht _ hEnd
    rw [List.mem_singleton.mp ht] at hEnd
    exact absurd rfl hEnd
  | ignored m c cs hIgnored ih =>
    rw [lexFrom_ignored m hIgnored]
    exact ih
  | comment m body cs hBody hLine ih =>
    rw [lexFrom_comment m hBody hLine]
    exact ih
  | token m c cs hIgnored hSharp ih =>
    rw [lexFrom_token m hIgnored hSharp]
    constructor
    · refine List.pairwise_cons.mpr ⟨?_, ih.1⟩
      intro t ht
      rw [Token.ofScan_stop]
      exact le_start_of_lexFrom _ _ t ht
    · exact List.forall_mem_cons.mpr ⟨fun hError _ => Token.ofScan_nonempty hError, ih.2⟩

/-- A token that is no fault starts before all those behind it. -/
theorem start_lt_of_lex {source : String} {ts us : List Token} (h : lex file source = ts ++ us)
    {t u : Token} (ht : t ∈ ts) (hError : t.kind.isError = false) (hEnd : t.kind ≠ .endOfInput) (hu : u ∈ us) :
    t.span.start.offset < u.span.start.offset := by
  obtain ⟨hSorted, hNonempty⟩ := @lexFrom_sorted file .start source.toList
  rw [← lex_eq_lexFrom, h] at hSorted hNonempty
  have hBefore := (List.pairwise_append.mp hSorted).2.2 t ht u hu
  have hStart := hNonempty t (List.mem_append_left us ht) hError hEnd
  omega

/-! ## The end of the input -/

theorem lexFrom_endAt (m : Mark) (cs : List Char) :
    ∃ ts, lexFrom file m cs = ts ++ [Token.endAt file (m.advance cs)] := by
  induction m, cs using lexFrom_induction file with
  | done m => exact ⟨[], rfl⟩
  | ignored m c cs ts _ ih => exact ih
  | comment m body cs ts _ _ ih =>
    rw [← List.cons_append, Mark.advance_append]
    exact ih
  | token m c cs ts _ _ ih =>
    obtain ⟨us, rfl⟩ := ih
    rw [← Mark.advance_append, List.take_append_drop]
    exact ⟨_ :: us, rfl⟩

/-- The tokens of a text and, behind them, the end of the input, which stands where the text ends. -/
theorem lex_endAt (file : Option Path) (source : String) :
    ∃ ts, lex file source = ts ++ [Token.endAt file (Mark.start.advance source.toList)] ∧
      ∀ t ∈ ts, t.kind ≠ .endOfInput := by
  obtain ⟨ts, hEnd⟩ := @lexFrom_endAt file .start source.toList
  obtain ⟨init, last, hSnoc, -, hInit⟩ := @lexFrom_snoc file .start source.toList
  obtain ⟨rfl, -⟩ := List.append_inj' (hSnoc.symm.trans hEnd) rfl
  exact ⟨init, by rw [lex_eq_lexFrom, hEnd], fun t ht => (hInit t ht).1⟩

end GraphQLSyntax
