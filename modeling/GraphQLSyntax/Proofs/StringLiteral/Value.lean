import GraphQLSyntax.StringLiteral.Decode
import GraphQLSyntax.Proofs.StringLiteral.Escape

/-!
# Values of literals can be written

The value of a block string has no characters but those of its lines and the line feeds between them.
So whatever a literal of either form stands for is also what a quoted literal stands for.
-/

set_option autoImplicit false

namespace GraphQLSyntax

/-! ## Block strings -/

theorem mem_unescapeTripleQuotes {cs : List Char} {c : Char} (h : c ∈ unescapeTripleQuotes cs) :
    c ∈ cs := by
  fun_induction unescapeTripleQuotes cs with
  | case1 => exact h
  | case2 cs ih =>
    simp only [List.mem_cons] at h ⊢
    rcases h with h | h | h | h
    · exact .inr (.inl h)
    · exact .inr (.inl h)
    · exact .inr (.inl h)
    · exact .inr (.inr (.inr (.inr (ih h))))
  | case3 d cs _ ih =>
    rcases List.mem_cons.mp h with rfl | h
    · exact List.mem_cons_self
    · exact List.mem_cons_of_mem d (ih h)

theorem mem_splitLines {cs line : List Char} {c : Char} (hLine : line ∈ splitLines cs) (hc : c ∈ line) :
    c ∈ cs := by
  fun_induction splitLines cs generalizing line with
  | case1 => simp_all
  | case2 cs ih =>
    rcases List.mem_cons.mp hLine with rfl | hLine
    · cases hc
    · simp [ih hLine hc]
  | case3 d cs _ hTerminator ih =>
    rcases List.mem_cons.mp hLine with rfl | hLine
    · cases hc
    · simp [ih hLine hc]
  | case4 d cs _ _ hNil ih => simp_all
  | case5 d cs _ _ first lines hLines ih =>
    rcases List.mem_cons.mp hLine with rfl | hLine
    · rcases List.mem_cons.mp hc with rfl | hc
      · exact List.mem_cons_self
      · exact List.mem_cons_of_mem d (ih (by simp [hLines]) hc)
    · exact List.mem_cons_of_mem d (ih (by simp [hLines, hLine]) hc)

theorem mem_intercalate {separator : List Char} {texts : List (List Char)} {c : Char}
    (h : c ∈ separator.intercalate texts) : c ∈ separator ∨ ∃ text ∈ texts, c ∈ text := by
  induction texts with
  | nil => simp at h
  | cons text texts ih =>
    cases texts with
    | nil =>
      rw [List.intercalate_singleton] at h
      exact .inr ⟨text, by simp, h⟩
    | cons next texts =>
      rw [List.intercalate_cons_cons] at h
      simp only [List.mem_append] at h
      rcases h with (h | h) | h
      · exact .inr ⟨text, by simp, h⟩
      · exact .inl h
      · rcases ih h with hMem | ⟨found, hFound, hMem⟩
        · exact .inl hMem
        · exact .inr ⟨found, List.mem_cons_of_mem text hFound, hMem⟩

theorem mem_dedent {lines : List (List Char)} {c : Char} (h : c ∈ dedent lines) :
    c = '\n' ∨ ∃ line ∈ lines, c ∈ line := by
  unfold dedent at h
  split at h
  · cases h
  · rcases mem_intercalate h with hMem | ⟨text, hText, hMem⟩
    · exact .inl (by simpa using hMem)
    · obtain ⟨⟨line, index⟩, hKept, rfl⟩ := List.mem_map.mp hText
      have hLine : line ∈ lines := by
        have hZip := List.mem_of_mem_take (List.mem_of_mem_drop hKept)
        exact List.fst_mem_of_mem_zipIdx hZip
      refine .inr ⟨line, hLine, ?_⟩
      dsimp only [dedentLine] at hMem
      split at hMem
      · exact hMem
      · exact List.mem_of_mem_drop hMem

theorem BlockTail.content {t : List Char} (h : BlockTail t) :
    ∃ content, t = content ++ tripleQuote ∧ BasicPlane content := by
  induction h with
  | close => exact ⟨[], rfl, fun c hc => nomatch hc⟩
  | escaped _ ih =>
    obtain ⟨content, rfl, hBasic⟩ := ih
    refine ⟨'\\' :: (tripleQuote ++ content), by simp, ?_⟩
    exact .cons (by decide) (.cons (by decide) (.cons (by decide) (.cons (by decide) hBasic)))
  | @plain c cs hPlain _ _ _ ih =>
    obtain ⟨content, rfl, hBasic⟩ := ih
    refine ⟨c :: content, rfl, .cons ?_ hBasic⟩
    simp only [isBlockCharacter, isLineTerminator, isStringCharacter, Bool.or_eq_true, Bool.and_eq_true,
      decide_eq_true_eq] at hPlain
    rcases hPlain with (rfl | rfl | rfl) | hPlain
    · decide
    · decide
    · decide
    · exact hPlain.1.2

theorem blockContent?_append (content : List Char) :
    blockContent? (tripleQuote ++ (content ++ tripleQuote)) = some content := by
  simp [blockContent?, tripleQuote]

theorem BlockTail.decode_basic {t : List Char} (h : BlockTail t) :
    ∃ value, decodeBlock (tripleQuote ++ t) = .ok value ∧ BasicPlane value := by
  obtain ⟨content, rfl, hBasic⟩ := h.content
  refine ⟨dedent (splitLines (unescapeTripleQuotes content)), ?_, ?_⟩
  · rw [decodeBlock, blockContent?_append]
  · intro c hc
    rcases mem_dedent hc with rfl | ⟨line, hLine, hMem⟩
    · decide
    · exact hBasic c (mem_unescapeTripleQuotes (mem_splitLines hLine hMem))

/-! ## Literals of both forms -/

theorem isBlockLiteral_quoted {raw : String} {t : List Char} (hRaw : raw.toList = '"' :: t)
    (h : QuotedTail t) : isBlockLiteral raw = false := by
  rw [isBlockLiteral, hRaw]
  cases h with
  | close => rfl
  | plain hQuote => simp [tripleQuote, List.isPrefixOf, Ne.symm hQuote]
  | named | codePoint => simp [tripleQuote, List.isPrefixOf]

theorem decodeStringLiteral_basic {raw value : String} (h : StringText raw.toList)
    (hValue : decodeStringLiteral raw = .ok value) : BasicPlane value.toList := by
  generalize hText : raw.toList = text at h
  have hDecoded : ∃ cs, (if isBlockLiteral raw then decodeBlock else decodeQuoted) text = .ok cs ∧
      value.toList = cs := by
    rw [decodeStringLiteral, hText] at hValue
    cases hDecode : (if isBlockLiteral raw then decodeBlock else decodeQuoted) text with
    | error =>
      rw [hDecode] at hValue
      cases hValue
    | ok cs =>
      rw [hDecode] at hValue
      cases hValue
      exact ⟨cs, rfl, String.toList_ofList⟩
  obtain ⟨cs, hDecode, rfl⟩ := hDecoded
  cases h with
  | quoted hTail =>
    rw [isBlockLiteral_quoted hText hTail] at hDecode
    obtain ⟨content, rfl, hBasic⟩ := hTail.decode_basic
    rw [← decodeQuoted_eq] at hBasic
    exact hBasic _ hDecode
  | block hTail =>
    have hBlock : isBlockLiteral raw = true := by
      rw [isBlockLiteral, hText]
      exact List.isPrefixOf_iff_prefix.mpr (List.prefix_append _ _)
    rw [hBlock] at hDecode
    obtain ⟨found, hFound, hBasic⟩ := hTail.decode_basic
    rw [if_pos rfl, hFound] at hDecode
    cases hDecode
    exact hBasic

theorem decodeStringLiteral_encodeQuoted {value : String} (h : BasicPlane value.toList) :
    StringText (encodeQuoted value.toList) ∧
      decodeStringLiteral (String.ofList (encodeQuoted value.toList)) = .ok value := by
  have hTail := quotedTail_encode h
  have hText : encodeQuoted value.toList = '"' :: (value.toList.flatMap encodeChar ++ ['"']) := rfl
  constructor
  · rw [hText]
    exact .quoted hTail
  · rw [decodeStringLiteral, isBlockLiteral_quoted (String.toList_ofList.trans hText) hTail,
      String.toList_ofList]
    simp only [Bool.false_eq_true, if_false]
    rw [decodeQuoted_encodeQuoted]
    simp [Except.map]

end GraphQLSyntax
