import GraphQLSyntax.Proofs.StringLiteral.BlockValue

/-!
# Block strings that lose nothing more

Lines lose their shared indentation and the blank lines at both ends only once. In what is left some line has no
indentation, and neither end is blank. So the value of a block string, written below the opening quotes, is its own
value.
-/

set_option autoImplicit false

namespace GraphQLSyntax

variable {lines rest : List (List Char)} {first line text : List Char}

/-! ## Trimming -/

/-- Neither the first line nor the last one is blank. -/
structure Trimmed (lines : List (List Char)) : Prop where
  first : ∀ line ∈ lines.head?, isBlankLine line = false
  last : ∀ line ∈ lines.getLast?, isBlankLine line = false

theorem trimBlankLines_of_trimmed (h : Trimmed lines) : trimBlankLines lines = lines := by
  have hFront : lines.dropWhile isBlankLine = lines := by
    cases lines with
    | nil => rfl
    | cons first rest => rw [List.dropWhile_cons, h.first first rfl, if_neg (by decide)]
  rw [trimBlankLines, hFront, List.rdropWhile_eq_self_iff]
  intro hSome hBlank
  rw [h.last _ (List.getLast?_eq_some_getLast hSome)] at hBlank
  cases hBlank

theorem trimmed_trimBlankLines (lines : List (List Char)) : Trimmed (trimBlankLines lines) where
  first line hLine := by
    -- What goes from the back leaves the front as it is.
    obtain ⟨back, hBack⟩ : trimBlankLines lines <+: lines.dropWhile isBlankLine := List.rdropWhile_prefix isBlankLine _
    have hHead := List.head?_dropWhile_not isBlankLine lines
    rw [← hBack, List.head?_append, Option.mem_def.mp hLine] at hHead
    simpa using hHead
  last line hLine := by
    obtain ⟨hSome, rfl⟩ := List.mem_getLast?_eq_getLast hLine
    exact Bool.eq_false_iff.mpr (List.rdropWhile_last_not isBlankLine _ hSome)

/-- Only blank lines go, and they go from the ends. -/
theorem exists_trimBlankLines (lines : List (List Char)) :
    ∃ front back, lines = front ++ (trimBlankLines lines ++ back) ∧
      ∀ line ∈ front ++ back, isBlankLine line = true := by
  refine ⟨lines.takeWhile isBlankLine, (lines.dropWhile isBlankLine).rtakeWhile isBlankLine, ?_, ?_⟩
  · rw [trimBlankLines, List.rdropWhile_append_rtakeWhile, List.takeWhile_append_dropWhile]
  · intro line hLine
    rcases List.mem_append.mp hLine with hLine | hLine
    · exact List.mem_takeWhile_imp hLine
    · exact List.mem_rtakeWhile_imp hLine

theorem mem_trimBlankLines (hLine : line ∈ lines) (h : isBlankLine line = false) : line ∈ trimBlankLines lines := by
  obtain ⟨front, back, hLines, hBlank⟩ := exists_trimBlankLines lines
  rw [hLines, List.mem_append, List.mem_append] at hLine
  rcases hLine with hFront | hKept | hBack
  · rw [hBlank line (List.mem_append_left back hFront)] at h
    cases h
  · exact hKept
  · rw [hBlank line (List.mem_append_right front hBack)] at h
    cases h

/-! ## Indentation -/

theorem commonIndent_eq_zero (hLine : line ∈ rest) (h : isBlankLine line = false) (hRun : blankRun line = 0) :
    commonIndent (first :: rest) = 0 :=
  Nat.eq_zero_of_le_zero (hRun ▸ commonIndent_le hLine h)

/-- Lines that share no indentation only lose blank lines. -/
theorem dedent_eq_trimmed (h : commonIndent lines = 0) : dedent lines = ['\n'].intercalate (trimBlankLines lines) := by
  rw [dedent_eq, ← stripIndent_commonIndent, h, stripIndent_zero]

/-- The shared indentation is that of some line. -/
theorem exists_least (h : ∃ line ∈ rest, isBlankLine line = false) :
    ∃ line ∈ rest, isBlankLine line = false ∧ blankRun line = commonIndent (first :: rest) := by
  obtain ⟨line, hLine, hStays⟩ := h
  have hMem : blankRun line ∈ (rest.filter fun line => !isBlankLine line).map blankRun :=
    List.mem_map_of_mem (List.mem_filter.mpr ⟨hLine, by simp [hStays]⟩)
  obtain ⟨least, hLeast⟩ := Option.isSome_iff_exists.mp (List.isSome_min?_of_mem hMem)
  obtain ⟨short, hShort, rfl⟩ := List.mem_map.mp (List.min?_mem hLeast)
  obtain ⟨hRest, hShortStays⟩ := List.mem_filter.mp hShort
  refine ⟨short, hRest, by simpa using hShortStays, ?_⟩
  rw [commonIndent, List.drop_one, List.tail_cons, hLeast, Option.getD_some]

theorem blankRun_drop_blankRun (line : List Char) : blankRun (line.drop (blankRun line)) = 0 := by
  have hDrop : line.drop (blankRun line) = line.dropWhile isBlankChar := by
    have hBehind := @List.drop_left _ (line.takeWhile isBlankChar) (line.dropWhile isBlankChar)
    rwa [List.takeWhile_append_dropWhile] at hBehind
  have hHead := List.head?_dropWhile_not isBlankChar line
  rw [hDrop]
  cases hRest : line.dropWhile isBlankChar with
  | nil => rfl
  | cons c cs =>
    rw [hRest] at hHead
    have hc : isBlankChar c = false := by simpa using hHead
    rw [blankRun, List.takeWhile_cons, hc]
    rfl

/-- Once the shared indentation is gone, some line has none, and it is not blank. -/
theorem exists_unindented (h : ∃ line ∈ rest, isBlankLine line = false) :
    ∃ line ∈ rest.map (List.drop (commonIndent (first :: rest))), isBlankLine line = false ∧ blankRun line = 0 := by
  obtain ⟨line, hLine, hStays, hLeast⟩ := @exists_least rest first h
  refine ⟨_, List.mem_map_of_mem hLine, ?_, ?_⟩
  · rw [isBlankLine_drop fun _ => Nat.le_of_eq hLeast.symm, hStays]
  · rw [← hLeast, blankRun_drop_blankRun]

/-! ## Lines and their text -/

theorem splitLines_plain (h : line ∈ splitLines text) : ∀ c ∈ line, isLineTerminator c = false := by
  fun_induction splitLines text generalizing line with
  | case1 =>
    cases List.mem_singleton.mp h
    exact List.forall_mem_nil _
  | case2 cs ih =>
    rcases List.mem_cons.mp h with rfl | h
    · exact List.forall_mem_nil _
    · exact ih h
  | case3 c cs _ _ ih =>
    rcases List.mem_cons.mp h with rfl | h
    · exact List.forall_mem_nil _
    · exact ih h
  | case4 c cs _ _ hNone ih => exact absurd hNone (splitLines_ne_nil cs)
  | case5 c cs _ hTerminator first rest hLines ih =>
    rw [hLines] at ih
    rcases List.mem_cons.mp h with rfl | h
    · exact List.forall_mem_cons.mpr ⟨by simpa using hTerminator, ih List.mem_cons_self⟩
    · exact ih (List.mem_cons_of_mem first h)

theorem lineFeeds_of_plain (h : ∀ c ∈ text, c ≠ '\r') : lineFeeds text = text := by
  induction text with
  | nil => rfl
  | cons c text ih =>
    obtain ⟨hc, hText⟩ := List.forall_mem_cons.mp h
    rw [lineFeeds_cons hc, ih hText]

/-- Lines that are joined by line feeds are split again at those. -/
theorem splitLines_intercalate (hSome : lines ≠ []) (h : ∀ line ∈ lines, ∀ c ∈ line, isLineTerminator c = false) :
    splitLines (['\n'].intercalate lines) = lines := by
  have hReturn : ∀ c ∈ ['\n'].intercalate lines, c ≠ '\r' := by
    rintro c hc rfl
    rcases mem_intercalate hc with hc | ⟨line, hLine, hc⟩
    · cases List.mem_singleton.mp hc
    · cases h line hLine '\r' hc
  have hFeed : ∀ line ∈ lines, '\n' ∉ line := by
    intro line hLine hc
    cases h line hLine '\n' hc
  rw [splitLines_eq, blockLines, lineFeeds_of_plain hReturn, List.splitOn_intercalate '\n' hFeed hSome]

/-! ## Once more -/

/-- Lines without line terminators below a blank one lose nothing, if they are trimmed and one of them has no
indentation. -/
theorem dedent_below (hTrimmed : Trimmed lines) (hPlain : ∀ line ∈ lines, ∀ c ∈ line, isLineTerminator c = false)
    (h : ∃ line ∈ lines, isBlankLine line = false ∧ blankRun line = 0) :
    dedent (splitLines ('\n' :: ['\n'].intercalate lines)) = ['\n'].intercalate lines := by
  obtain ⟨line, hLine, hStays, hRun⟩ := h
  have hBelow : splitLines ('\n' :: ['\n'].intercalate lines) = [] :: lines := by
    rw [splitLines.eq_3 _ _ (by simp), splitLines_intercalate (List.ne_nil_of_mem hLine) hPlain]
    rfl
  have hTrim : trimBlankLines ([] :: lines) = trimBlankLines lines := rfl
  rw [hBelow, dedent_eq_trimmed (commonIndent_eq_zero hLine hStays hRun), hTrim, trimBlankLines_of_trimmed hTrimmed]

theorem dedent_of_blank (h : ∀ line ∈ lines, isBlankLine line = true) : dedent lines = [] := by
  have hNone : (lines.findIdx? fun line => !isBlankLine line) = none := by simpa using h
  rw [dedent, hNone]

/-- Either all lines are blank and nothing is left, or the lines that are left are as `dedent_below` wants them. -/
theorem dedent_dedent (hFirst : isBlankLine first = true)
    (hPlain : ∀ line ∈ first :: rest, ∀ c ∈ line, isLineTerminator c = false) :
    dedent (splitLines ('\n' :: dedent (first :: rest))) = dedent (first :: rest) := by
  by_cases hSome : ∃ line ∈ rest, isBlankLine line = false
  · obtain ⟨line, hLine, hStays, hRun⟩ := @exists_unindented rest first hSome
    have hStripped : stripSharedIndent (first :: rest) =
        first :: rest.map (List.drop (commonIndent (first :: rest))) := (stripIndent_commonIndent _).symm
    have hKept : line ∈ trimBlankLines (stripSharedIndent (first :: rest)) := by
      rw [hStripped]
      exact mem_trimBlankLines (List.mem_cons_of_mem first hLine) hStays
    rw [dedent_eq (first :: rest)]
    refine dedent_below (trimmed_trimBlankLines _) ?_ ⟨line, hKept, hStays, hRun⟩
    intro kept hMem c hc
    have hMem : kept ∈ stripSharedIndent (first :: rest) := by
      obtain ⟨front, back, hLines, -⟩ := exists_trimBlankLines (stripSharedIndent (first :: rest))
      rw [hLines]
      exact List.mem_append_right front (List.mem_append_left back hMem)
    rw [hStripped] at hMem
    rcases List.mem_cons.mp hMem with rfl | hMem
    · exact hPlain kept List.mem_cons_self c hc
    · obtain ⟨whole, hWhole, rfl⟩ := List.mem_map.mp hMem
      exact hPlain whole (List.mem_cons_of_mem first hWhole) c (List.mem_of_mem_drop hc)
  · have hBlank : ∀ line ∈ first :: rest, isBlankLine line = true :=
      List.forall_mem_cons.mpr ⟨hFirst, fun line hLine => by simpa using fun h => hSome ⟨line, hLine, h⟩⟩
    rw [dedent_of_blank hBlank]
    rfl

/-- Dedenting the lines below a blank one, and what comes of it below a blank line again, is dedenting them once. Where
a line after the first is not blank and has no indentation, only blank lines at the ends go. -/
theorem dedent_idempotent :
    (∀ text, (∀ first ∈ (splitLines text).head?, isBlankLine first = true) →
      dedent (splitLines ('\n' :: dedent (splitLines text))) = dedent (splitLines text)) ∧
    ∀ lines, (∃ c cs, c :: cs ∈ lines.tail ∧ isBlankChar c = false) →
      ∃ front kept back, lines = front ++ (kept ++ back) ∧ (∀ line ∈ front ++ back, isBlankLine line = true) ∧
        Trimmed kept ∧ dedent lines = ['\n'].intercalate kept := by
  constructor
  · intro text hFirst
    have hPlain : ∀ line ∈ splitLines text, ∀ c ∈ line, isLineTerminator c = false := fun _ => splitLines_plain
    cases hLines : splitLines text with
    | nil => exact absurd hLines (splitLines_ne_nil text)
    | cons first rest =>
      rw [hLines] at hFirst hPlain
      exact dedent_dedent (hFirst first rfl) hPlain
  · rintro lines ⟨c, cs, hLine, hc⟩
    obtain ⟨front, back, hLines, hBlank⟩ := exists_trimBlankLines lines
    refine ⟨front, _, back, hLines, hBlank, trimmed_trimBlankLines lines, dedent_eq_trimmed ?_⟩
    cases lines with
    | nil => cases hLine
    | cons first rest =>
      apply commonIndent_eq_zero hLine
      · simp [isBlankLine, hc]
      · simp [blankRun, hc]

/-- A tab is as good as a space, and a blank line may be shorter than the indentation. -/
theorem dedent_idempotent_mixed :
    dedent (splitLines "\n\t  a\r\n \r \t b\n".toList) = "a\n\nb".toList ∧
      dedent (splitLines ('\n' :: dedent (splitLines "\n\t  a\r\n \r \t b\n".toList))) =
        dedent (splitLines "\n\t  a\r\n \r \t b\n".toList) ∧
      ∃ front kept back, ["  x".toList, " a".toList, "b".toList, "\t".toList] = front ++ (kept ++ back) ∧
        (∀ line ∈ front ++ back, isBlankLine line = true) ∧ Trimmed kept ∧
        dedent ["  x".toList, " a".toList, "b".toList, "\t".toList] = ['\n'].intercalate kept :=
  ⟨by decide +kernel, dedent_idempotent.1 _ (by decide +kernel),
    dedent_idempotent.2 _ ⟨'b', [], by decide +kernel, rfl⟩⟩

end GraphQLSyntax
