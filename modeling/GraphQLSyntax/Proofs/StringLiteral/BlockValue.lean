import Mathlib.Data.List.DropRight
import GraphQLSyntax.Proofs.Lexing.Measures
import GraphQLSyntax.Proofs.StringLiteral.Value

/-!
# Values of block strings

The value of a block string is defined by passes over all its lines, one after the other: the indentation goes
from every line, then the blank lines go from both ends. Decoding looks for the ends first, and cuts the lines
between them only. Both say the same, since a line stays blank, or not, without its indentation.
-/

set_option autoImplicit false

namespace GraphQLSyntax

/-! ## The passes -/

/-- Drops as many characters as are left of an occurrence, and replaces the occurrences after them. -/
def replaceFrom (old new : List Char) : Nat → List Char → List Char
  | _, [] => []
  | n + 1, _ :: cs => replaceFrom old new n cs
  | 0, c :: cs =>
    if old.isPrefixOf (c :: cs) then new ++ replaceFrom old new (old.length - 1) cs
    else c :: replaceFrom old new 0 cs

/-- Replaces the occurrences of a text, from left to right. -/
def replaceAll (old new text : List Char) : List Char :=
  replaceFrom old new 0 text

/-- Makes every line end a line feed, those of two characters first. -/
def lineFeeds (text : List Char) : List Char :=
  replaceAll ['\r'] ['\n'] (replaceAll ['\r', '\n'] ['\n'] text)

def blockLines (text : List Char) : List (List Char) :=
  (lineFeeds text).splitOn '\n'

/-- Absent when all lines after the first are blank. -/
def sharedIndent? (lines : List (List Char)) : Option Nat :=
  ((lines.tail.filter fun line => !isBlankLine line).map blankRun).min?

/-- A line of fewer characters is blank, and all of it goes. -/
def stripIndent (n : Nat) : List (List Char) → List (List Char)
  | [] => []
  | first :: rest => first :: rest.map (List.drop n)

def stripSharedIndent (lines : List (List Char)) : List (List Char) :=
  match sharedIndent? lines with
  | none => lines
  | some n => stripIndent n lines

def trimBlankLines (lines : List (List Char)) : List (List Char) :=
  (lines.dropWhile isBlankLine).rdropWhile isBlankLine

/-- The value of a block string with the given text between its quotes. -/
def blockStringValue (content : List Char) : List Char :=
  let unescaped := replaceAll ('\\' :: tripleQuote) tripleQuote content
  ['\n'].intercalate (trimBlankLines (stripSharedIndent (blockLines unescaped)))

/-- Triple quotes at both ends that share no character. -/
def TripleQuoted (raw : List Char) : Prop :=
  tripleQuote <+: raw ∧ tripleQuote <:+ raw ∧ 6 ≤ byteLength raw

instance (raw : List Char) : Decidable (TripleQuoted raw) :=
  inferInstanceAs (Decidable (_ ∧ _ ∧ _))

def withoutQuotes (raw : List Char) : List Char :=
  (raw.drop 3).take (raw.length - 6)

/-! ## Quotes -/

theorem byteLength_tripleQuote : byteLength tripleQuote = 3 := rfl

theorem tripleQuoted_iff {raw : List Char} :
    TripleQuoted raw ↔ ∃ content, raw = tripleQuote ++ (content ++ tripleQuote) := by
  constructor
  · rintro ⟨⟨rest, rfl⟩, hSuffix, hLength⟩
    rw [byteLength_append, byteLength_tripleQuote] at hLength
    have hRest : tripleQuote <:+ rest := by
      rcases List.suffix_or_suffix_of_suffix hSuffix (List.suffix_append tripleQuote rest) with h | ⟨front, hFront⟩
      · exact h
      · -- A rest that is no longer than the quotes is the quotes.
        have hBytes := congrArg byteLength hFront
        rw [byteLength_append, byteLength_tripleQuote] at hBytes
        have hNone : byteLength front = byteLength [] := by
          simp only [byteLength]
          omega
        obtain ⟨-, rfl⟩ := @append_inj_of_byteLength front [] rest tripleQuote hFront hNone
        exact List.suffix_rfl
    obtain ⟨content, rfl⟩ := hRest
    exact ⟨content, rfl⟩
  · rintro ⟨content, rfl⟩
    refine ⟨List.prefix_append _ _, ⟨tripleQuote ++ content, by simp⟩, ?_⟩
    rw [byteLength_append, byteLength_append, byteLength_tripleQuote]
    omega

theorem withoutQuotes_append (content : List Char) :
    withoutQuotes (tripleQuote ++ (content ++ tripleQuote)) = content := by
  simp [withoutQuotes, tripleQuote]

theorem eq_of_blockContent? {raw content : List Char} (h : blockContent? raw = some content) :
    raw = tripleQuote ++ (content ++ tripleQuote) := by
  unfold blockContent? at h
  split at h
  · rename_i cs
    split at h
    · rename_i hClose
      cases h
      have hSplit := List.take_append_drop (cs.length - 3) cs
      rw [hClose] at hSplit
      rw [hSplit]
      rfl
    · cases h
  · cases h

theorem blockContent?_eq (raw : List Char) :
    blockContent? raw = if TripleQuoted raw then some (withoutQuotes raw) else none := by
  split
  · rename_i h
    obtain ⟨content, rfl⟩ := tripleQuoted_iff.mp h
    rw [blockContent?_append, withoutQuotes_append]
  · rename_i h
    cases hContent : blockContent? raw with
    | none => rfl
    | some content => exact absurd (tripleQuoted_iff.mpr ⟨content, eq_of_blockContent? hContent⟩) h

/-! ## Replacement -/

theorem replaceFrom_append (old new s t : List Char) :
    replaceFrom old new s.length (s ++ t) = replaceFrom old new 0 t := by
  induction s with
  | nil => rfl
  | cons c s ih => simpa [replaceFrom] using ih

theorem replaceAll_append {old : List Char} (hOld : old ≠ []) (new text : List Char) :
    replaceAll old new (old ++ text) = new ++ replaceAll old new text := by
  obtain ⟨c, old, rfl⟩ := List.exists_cons_of_ne_nil hOld
  have hPrefix : (c :: old).isPrefixOf (c :: (old ++ text)) = true :=
    List.isPrefixOf_iff_prefix.mpr (List.prefix_append (c :: old) text)
  rw [replaceAll, List.cons_append, replaceFrom, if_pos hPrefix, List.length_cons, Nat.add_sub_cancel,
    replaceFrom_append, replaceAll]

theorem replaceAll_cons {old : List Char} {c : Char} {text : List Char} (h : ¬ old <+: c :: text)
    (new : List Char) : replaceAll old new (c :: text) = c :: replaceAll old new text := by
  rw [replaceAll, replaceFrom, if_neg (fun hPrefix => h (List.isPrefixOf_iff_prefix.mp hPrefix)), replaceAll]

theorem unescapeTripleQuotes_eq (text : List Char) :
    unescapeTripleQuotes text = replaceAll ('\\' :: tripleQuote) tripleQuote text := by
  fun_induction unescapeTripleQuotes text with
  | case1 => rfl
  | case2 cs ih =>
    rw [ih]
    exact (replaceAll_append (by decide) tripleQuote cs).symm
  | case3 c cs hEscape ih =>
    rw [ih, replaceAll_cons]
    rintro ⟨rest, hRest⟩
    obtain ⟨rfl, rfl⟩ := List.cons.inj hRest
    exact hEscape rest rfl rfl

/-! ## Lines -/

theorem lineFeeds_pair (text : List Char) : lineFeeds ('\r' :: '\n' :: text) = '\n' :: lineFeeds text := by
  have hPair := @replaceAll_append ['\r', '\n'] (by decide) ['\n'] text
  simp only [List.cons_append, List.nil_append] at hPair
  rw [lineFeeds, hPair, replaceAll_cons (by simp), lineFeeds]

theorem lineFeeds_return {text : List Char} (h : ∀ rest, text ≠ '\n' :: rest) :
    lineFeeds ('\r' :: text) = '\n' :: lineFeeds text := by
  have hPair : ¬ ['\r', '\n'] <+: '\r' :: text := by
    rintro ⟨rest, hRest⟩
    exact h rest (List.cons.inj hRest).2.symm
  rw [lineFeeds, replaceAll_cons hPair]
  exact @replaceAll_append ['\r'] (by decide) ['\n'] _

theorem lineFeeds_cons {c : Char} (h : c ≠ '\r') (text : List Char) :
    lineFeeds (c :: text) = c :: lineFeeds text := by
  have hPair : ¬ ['\r', '\n'] <+: c :: text := by simp [h.symm]
  have hReturn : ¬ ['\r'] <+: c :: replaceAll ['\r', '\n'] ['\n'] text := by simp [h.symm]
  rw [lineFeeds, replaceAll_cons hPair, replaceAll_cons hReturn, lineFeeds]

theorem splitLines_ne_nil (text : List Char) : splitLines text ≠ [] := by
  fun_cases splitLines text <;> simp

theorem splitLines_eq (text : List Char) : splitLines text = blockLines text := by
  unfold blockLines
  fun_induction splitLines text with
  | case1 => rfl
  | case2 cs ih =>
    rw [lineFeeds_pair, List.splitOn_cons_eq_if_modifyHead, ih]
    rfl
  | case3 c cs hPair hTerminator ih =>
    have hFeed : lineFeeds (c :: cs) = '\n' :: lineFeeds cs := by
      simp only [isLineTerminator, Bool.or_eq_true, decide_eq_true_eq] at hTerminator
      rcases hTerminator with rfl | rfl
      · exact lineFeeds_cons (by decide) cs
      · exact lineFeeds_return fun rest hRest => hPair rest rfl hRest
    rw [hFeed, List.splitOn_cons_eq_if_modifyHead, ih]
    rfl
  | case4 c cs _ _ hNone ih => exact absurd hNone (splitLines_ne_nil cs)
  | case5 c cs _ hTerminator line lines hLines ih =>
    simp only [isLineTerminator, Bool.or_eq_true, decide_eq_true_eq, not_or] at hTerminator
    rw [lineFeeds_cons hTerminator.2, List.splitOn_cons_eq_if_modifyHead, ← ih, hLines,
      if_neg (by simpa using hTerminator.1), List.modifyHead_cons]

/-! ## Indentation -/

theorem commonIndent_eq (lines : List (List Char)) : commonIndent lines = (sharedIndent? lines).getD 0 := by
  rw [commonIndent, sharedIndent?, List.drop_one]

theorem commonIndent_le {first line : List Char} {rest : List (List Char)} (hLine : line ∈ rest)
    (h : isBlankLine line = false) : commonIndent (first :: rest) ≤ blankRun line := by
  rw [commonIndent]
  apply List.min?_getD_le_of_mem
  exact List.mem_map_of_mem (List.mem_filter.mpr ⟨hLine, by simp [h]⟩)

/-- Cutting no more than spaces and tabs. -/
theorem isBlankLine_drop {line : List Char} {n : Nat} (h : isBlankLine line = false → n ≤ blankRun line) :
    isBlankLine (line.drop n) = isBlankLine line := by
  cases hBlank : isBlankLine line with
  | true =>
    apply List.all_eq_true.mpr
    intro c hc
    exact List.all_eq_true.mp hBlank c (List.mem_of_mem_drop hc)
  | false =>
    have hCut : line.drop n = (line.takeWhile isBlankChar).drop n ++ line.dropWhile isBlankChar := by
      conv_lhs => rw [← List.takeWhile_append_dropWhile (p := isBlankChar) (l := line)]
      exact List.drop_append_of_le_length (h hBlank)
    obtain ⟨c, hc, hStays⟩ : ∃ c ∈ line.dropWhile isBlankChar, isBlankChar c = false := by
      by_contra hNone
      have hAll : ∀ c ∈ line, isBlankChar c = true := by
        intro c hc
        rw [← List.takeWhile_append_dropWhile (p := isBlankChar) (l := line)] at hc
        rcases List.mem_append.mp hc with hc | hc
        · exact List.mem_takeWhile_imp hc
        · by_contra hStays
          exact hNone ⟨c, hc, by simpa using hStays⟩
      rw [isBlankLine, List.all_eq_true.mpr hAll] at hBlank
      cases hBlank
    rw [hCut, isBlankLine, List.all_eq_false]
    exact ⟨c, List.mem_append_right _ hc, by simp [hStays]⟩

theorem map_dedentLine (n k : Nat) (lines : List (List Char)) :
    ((lines.zipIdx (k + 1)).map fun (line, index) => dedentLine n line index) = lines.map (List.drop n) := by
  induction lines generalizing k with
  | nil => rfl
  | cons line lines ih =>
    rw [List.zipIdx_cons, List.map_cons, ih (k + 1)]
    rfl

theorem map_dedentLine_zipIdx (n : Nat) (lines : List (List Char)) :
    (lines.zipIdx.map fun (line, index) => dedentLine n line index) = stripIndent n lines := by
  cases lines with
  | nil => rfl
  | cons first rest =>
    rw [List.zipIdx_cons, List.map_cons, map_dedentLine]
    rfl

theorem stripIndent_zero (lines : List (List Char)) : stripIndent 0 lines = lines := by
  have hDrop : List.drop 0 = @id (List Char) := rfl
  cases lines <;> simp [stripIndent, hDrop]

theorem stripIndent_commonIndent (lines : List (List Char)) :
    stripIndent (commonIndent lines) lines = stripSharedIndent lines := by
  rw [commonIndent_eq, stripSharedIndent]
  cases sharedIndent? lines with
  | none => exact stripIndent_zero lines
  | some n => rfl

theorem map_isBlankLine_stripIndent (lines : List (List Char)) :
    (stripIndent (commonIndent lines) lines).map isBlankLine = lines.map isBlankLine := by
  cases lines with
  | nil => rfl
  | cons first rest =>
    rw [stripIndent, List.map_cons, List.map_cons, List.map_map]
    congr 1
    apply List.map_congr_left
    intro line hLine
    exact isBlankLine_drop fun h => commonIndent_le hLine h

/-! ## Blank lines at the ends -/

theorem rdropWhile_eq_take {α : Type} (p : α → Bool) (xs : List α) :
    xs.rdropWhile p = xs.take (xs.length - xs.reverse.findIdx fun x => !p x) := by
  rw [List.rdropWhile, List.dropWhile_eq_drop_findIdx_not, List.drop_reverse, List.reverse_reverse]

theorem rdropWhile_append {α : Type} {p : α → Bool} (xs : List α) {ys : List α} (h : ∃ y ∈ ys, p y = false) :
    (xs ++ ys).rdropWhile p = xs ++ ys.rdropWhile p := by
  have hStays : (ys.reverse.dropWhile p).isEmpty = false := by
    obtain ⟨y, hMem, hy⟩ := h
    rw [Bool.eq_false_iff, Ne, List.isEmpty_iff, List.dropWhile_eq_nil_iff]
    intro hAll
    rw [hAll y (List.mem_reverse.mpr hMem)] at hy
    cases hy
  rw [List.rdropWhile, List.reverse_append, List.dropWhile_append, hStays, List.rdropWhile]
  simp

/-- The lines from the first to the last one that is not blank. -/
theorem drop_take_eq_trimBlankLines {lines : List (List Char)} (h : ∃ line ∈ lines, isBlankLine line = false) :
    (lines.take (lines.length - lines.reverse.findIdx fun line => !isBlankLine line)).drop
      (lines.findIdx fun line => !isBlankLine line) = trimBlankLines lines := by
  have hSplit : lines.takeWhile isBlankLine ++ lines.dropWhile isBlankLine = lines :=
    List.takeWhile_append_dropWhile
  have hStays : ∃ line ∈ lines.dropWhile isBlankLine, isBlankLine line = false := by
    obtain ⟨line, hMem, hLine⟩ := h
    rw [← hSplit] at hMem
    rcases List.mem_append.mp hMem with hMem | hMem
    · rw [List.mem_takeWhile_imp hMem] at hLine
      cases hLine
    · exact ⟨line, hMem, hLine⟩
  have hFront : (lines.takeWhile isBlankLine).length = lines.findIdx fun line => !isBlankLine line := by
    rw [List.takeWhile_eq_take_findIdx_not, List.length_take, Nat.min_eq_left List.findIdx_le_length]
  rw [← rdropWhile_eq_take, trimBlankLines]
  conv_lhs => rw [← hSplit, rdropWhile_append _ hStays]
  rw [hSplit, List.drop_left' hFront]

theorem trimBlankLines_eq_nil {lines : List (List Char)} (h : ∀ line ∈ lines, isBlankLine line = true) :
    trimBlankLines lines = [] := by
  rw [trimBlankLines, List.dropWhile_eq_nil_iff.mpr h]
  rfl

/-- Looking for the ends first does not matter, as the lines at the ends are blank with their indentation or
without it. -/
theorem dedent_eq (lines : List (List Char)) :
    dedent lines = ['\n'].intercalate (trimBlankLines (stripSharedIndent lines)) := by
  rw [← stripIndent_commonIndent]
  have hBlank := map_isBlankLine_stripIndent lines
  have hLength : (stripIndent (commonIndent lines) lines).length = lines.length := by
    simpa using congrArg List.length hBlank
  -- Which lines are blank decides where the ends are.
  have hFirst : ((stripIndent (commonIndent lines) lines).findIdx fun line => !isBlankLine line) =
      lines.findIdx fun line => !isBlankLine line := by
    simpa [List.findIdx_map, Function.comp_def] using congrArg (List.findIdx (!·)) hBlank
  have hLast : ((stripIndent (commonIndent lines) lines).reverse.findIdx fun line => !isBlankLine line) =
      lines.reverse.findIdx fun line => !isBlankLine line := by
    simpa [List.findIdx_map, Function.comp_def, ← List.map_reverse] using
      congrArg (fun blanks => blanks.reverse.findIdx (!·)) hBlank
  unfold dedent
  split
  · rename_i hNone
    have hAll : ∀ line ∈ stripIndent (commonIndent lines) lines, isBlankLine line = true := by
      rw [← List.forall_mem_map (P := (· = true)), hBlank, List.forall_mem_map]
      simpa using hNone
    rw [trimBlankLines_eq_nil hAll]
    rfl
  · rename_i first hSome
    obtain ⟨hBound, rfl⟩ := List.findIdx?_eq_some_iff_findIdx_eq.mp hSome
    have hStays : ∃ line ∈ stripIndent (commonIndent lines) lines, isBlankLine line = false := by
      rw [← hFirst, ← hLength, List.findIdx_lt_length] at hBound
      simpa using hBound
    rw [← drop_take_eq_trimBlankLines hStays, hFirst, hLast, hLength, ← map_dedentLine_zipIdx, ← List.map_take,
      ← List.map_drop]

theorem decodeBlock_eq (raw : List Char) :
    decodeBlock raw =
      if TripleQuoted raw then .ok (blockStringValue (withoutQuotes raw)) else .error .unterminated := by
  rw [decodeBlock, blockContent?_eq]
  by_cases h : TripleQuoted raw
  · simp only [if_pos h, unescapeTripleQuotes_eq, splitLines_eq, dedent_eq]
    rfl
  · simp only [if_neg h]

example : blockStringValue "\r\n  a\r\n \r\t  b\n  ".toList = "a\n\n b".toList := by decide +kernel

end GraphQLSyntax
