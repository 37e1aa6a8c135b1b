import GraphQLSyntax.Proofs.StringLiteral.BlockValue

/-!
# Cuts of block strings

Decoding can be done by byte offsets: those of the quotes, of the first line end of what remains, and of the
indentation in a line. A cut at an offset inside a character has no result, and neither has a decoding that makes
it. No block string is such that one is made: the lines end at characters of one byte, and what a line loses are
spaces and tabs.
-/

set_option autoImplicit false

namespace GraphQLSyntax

/-! ## Decoding by offsets -/

/-- The bytes from one offset to another. -/
def sliceBytes? (start stop : Nat) (text : List Char) : Option (List Char) :=
  (dropBytes? start text).bind (takeBytes? (stop - start))

def terminatorOffset? (text : List Char) : Option Nat :=
  if text.any isLineTerminator then some (byteLength (text.takeWhile fun c => !isLineTerminator c)) else none

/-- The lines of what remains, each cut off in a round of its own. -/
def cutLines? : Nat → List Char → Option (List (List Char))
  | 0, _ => none
  | rounds + 1, remaining =>
    match terminatorOffset? remaining with
    | none => some [remaining]
    | some offset => do
      let line ← takeBytes? offset remaining
      let found ← dropBytes? offset remaining
      let width := if ['\r', '\n'].isPrefixOf found then 2 else 1
      let rest ← dropBytes? (offset + width) remaining
      let lines ← cutLines? rounds rest
      return line :: lines

/-- The bytes of the run of spaces and tabs at the front of a line. -/
def indentBytes (line : List Char) : Nat :=
  byteLength (line.takeWhile isBlankChar)

def cutIndent? (indent : Nat) (line : List Char) (index : Nat) : Option (List Char) :=
  if index = 0 then some line else dropBytes? (min indent (byteLength line)) line

def cutDedent? (lines : List (List Char)) : Option (List Char) :=
  match lines.findIdx? fun line => !isBlankLine line with
  | none => some []
  | some first =>
    let indent := ((((lines.drop 1).filter fun line => !isBlankLine line).map indentBytes).min?).getD 0
    let stop := lines.length - lines.reverse.findIdx fun line => !isBlankLine line
    let kept := (lines.zipIdx.take stop).drop first
    (kept.mapM fun (line, index) => cutIndent? indent line index).map ['\n'].intercalate

def cutBlock? (raw : List Char) : Option (Except StringFault (List Char)) :=
  if byteLength raw < 6 ∨ ¬ tripleQuote <+: raw ∨ ¬ tripleQuote <:+ raw then some (.error .unterminated)
  else do
    let content ← sliceBytes? 3 (byteLength raw - 3) raw
    let unescaped := unescapeTripleQuotes content
    let lines ← cutLines? (unescaped.length + 1) unescaped
    let value ← cutDedent? lines
    return .ok value

/-! ## Lines -/

theorem splitLines_cons {c : Char} {text line : List Char} {lines : List (List Char)}
    (h : isLineTerminator c = false) (hText : splitLines text = line :: lines) :
    splitLines (c :: text) = (c :: line) :: lines := by
  have hPair : ∀ rest : List Char, c = '\r' → text = '\n' :: rest → False := by
    rintro rest rfl -
    cases h
  rw [splitLines.eq_3 c text hPair, h, hText]
  rfl

theorem splitLines_append {line rest : List Char} {lines : List (List Char)}
    (h : ∀ c ∈ line, isLineTerminator c = false) (hRest : splitLines rest = [] :: lines) :
    splitLines (line ++ rest) = line :: lines := by
  induction line with
  | nil => exact hRest
  | cons c line ih =>
    exact splitLines_cons (h c List.mem_cons_self) (ih fun d hd => h d (List.mem_cons_of_mem c hd))

theorem utf8Size_terminator {c : Char} (h : isLineTerminator c = true) : c.utf8Size = 1 := by
  simp only [isLineTerminator, Bool.or_eq_true, decide_eq_true_eq] at h
  rcases h with rfl | rfl <;> rfl

/-- The line end that a text starts with, of one or two bytes, ends one line. -/
theorem splitLines_ending {c : Char} {rest : List Char} (h : isLineTerminator c = true) :
    ∃ ending tail, c :: rest = ending ++ tail ∧ ending ≠ [] ∧
      byteLength ending = (if ['\r', '\n'].isPrefixOf (c :: rest) then 2 else 1) ∧
      splitLines (c :: rest) = [] :: splitLines tail := by
  cases hPair : ['\r', '\n'].isPrefixOf (c :: rest) with
  | true =>
    obtain ⟨tail, hTail⟩ := List.isPrefixOf_iff_prefix.mp hPair
    obtain ⟨rfl, rfl⟩ := List.cons.inj hTail
    exact ⟨['\r', '\n'], tail, rfl, by simp, rfl, splitLines.eq_2 tail⟩
  | false =>
    have hNotPair : ∀ tail : List Char, c = '\r' → rest = '\n' :: tail → False := by
      rintro tail rfl rfl
      cases hPair
    refine ⟨[c], rest, rfl, by simp, by simp [byteLength, utf8Size_terminator h], ?_⟩
    rw [splitLines.eq_3 c rest hNotPair, h, if_pos rfl]

/-- There is no line end, or one after a part of the text without any. -/
theorem terminatorOffset?_cases (text : List Char) :
    (terminatorOffset? text = none ∧ ∀ c ∈ text, isLineTerminator c = false) ∨
    ∃ line c rest, text = line ++ c :: rest ∧ isLineTerminator c = true ∧ (∀ d ∈ line, isLineTerminator d = false) ∧
      terminatorOffset? text = some (byteLength line) := by
  have hSplit := List.takeWhile_append_dropWhile (p := fun c => !isLineTerminator c) (l := text)
  have hLine : ∀ d ∈ text.takeWhile fun c => !isLineTerminator c, isLineTerminator d = false := by
    intro d hd
    simpa using List.mem_takeWhile_imp hd
  have hHead := List.head?_dropWhile_not (fun c => !isLineTerminator c) text
  unfold terminatorOffset?
  cases hRest : text.dropWhile fun c => !isLineTerminator c with
  | nil =>
    left
    rw [hRest, List.append_nil] at hSplit
    rw [hSplit] at hLine
    refine ⟨if_neg ?_, hLine⟩
    simpa using hLine
  | cons c rest =>
    right
    rw [hRest] at hSplit hHead
    have hc : isLineTerminator c = true := by simpa using hHead
    refine ⟨_, c, rest, hSplit.symm, hc, hLine, if_pos ?_⟩
    rw [List.any_eq_true, ← hSplit]
    exact ⟨c, by simp, hc⟩

theorem cutLines?_eq {rounds : Nat} {text : List Char} (h : text.length < rounds) :
    cutLines? rounds text = some (splitLines text) := by
  induction rounds generalizing text with
  | zero => cases h
  | succ rounds ih =>
    rw [cutLines?]
    rcases terminatorOffset?_cases text with ⟨hNone, hText⟩ | ⟨line, c, rest, rfl, hc, hLine, hOffset⟩
    · have hLast := @splitLines_append text [] [] hText rfl
      rw [List.append_nil] at hLast
      rw [hNone, hLast]
    · obtain ⟨ending, tail, hRest, hNonempty, hWidth, hLines⟩ := @splitLines_ending c rest hc
      have hBehind : dropBytes? (byteLength line + byteLength ending) (line ++ (ending ++ tail)) = some tail := by
        have hCut := dropBytes?_append (line ++ ending) tail
        rwa [byteLength_append, List.append_assoc] at hCut
      have hShorter : tail.length < rounds := by
        have hPositive := List.length_pos_of_ne_nil hNonempty
        rw [hRest, List.length_append, List.length_append] at h
        omega
      rw [hOffset, splitLines_append hLine hLines]
      simp only [takeBytes?_append, dropBytes?_append, Option.bind_eq_bind, Option.bind_some, ← hWidth]
      rw [hRest, hBehind, Option.bind_some, ih hShorter]
      rfl

/-! ## Indentation -/

theorem utf8Size_blank {c : Char} (h : isBlankChar c = true) : c.utf8Size = 1 := by
  simp only [isBlankChar, Bool.or_eq_true, decide_eq_true_eq] at h
  rcases h with rfl | rfl <;> rfl

theorem indentBytes_eq (line : List Char) : indentBytes line = blankRun line :=
  byteLength_eq_length fun _ hc => utf8Size_blank (List.mem_takeWhile_imp hc)

theorem length_le_byteLength (cs : List Char) : cs.length ≤ byteLength cs := by
  induction cs with
  | nil => exact Nat.le_refl 0
  | cons c cs ih =>
    have hSize := c.utf8Size_pos
    simp only [List.length_cons, byteLength]
    omega

/-- Either the line is long enough, and what goes are spaces and tabs, or all of it are. -/
theorem dropBytes?_indent {line : List Char} {n : Nat} (h : isBlankLine line = false → n ≤ blankRun line) :
    dropBytes? (min n (byteLength line)) line = some (line.drop n) := by
  have hBlank : ∀ c ∈ line.take n, isBlankChar c = true := by
    intro c hc
    cases hLine : isBlankLine line with
    | true => exact List.all_eq_true.mp hLine c (List.mem_of_mem_take hc)
    | false =>
      rw [← List.takeWhile_append_dropWhile (p := isBlankChar) (l := line),
        List.take_append_of_le_length (h hLine)] at hc
      exact List.mem_takeWhile_imp (List.mem_of_mem_take hc)
  have hBytes : byteLength (line.take n) = min n (byteLength line) := by
    have hLength := length_le_byteLength line
    rw [byteLength_eq_length fun c hc => utf8Size_blank (hBlank c hc), List.length_take]
    cases hLine : isBlankLine line with
    | true => rw [byteLength_eq_length fun c hc => utf8Size_blank (List.all_eq_true.mp hLine c hc)]
    | false =>
      have hRun : blankRun line ≤ line.length := (List.takeWhile_prefix isBlankChar).length_le
      have hIndent := h hLine
      omega
  have hCut := dropBytes?_append (line.take n) (line.drop n)
  rwa [hBytes, List.take_append_drop] at hCut

theorem mapM_eq_map {α β : Type} {f : α → Option β} {g : α → β} {as : List α} (h : ∀ a ∈ as, f a = some (g a)) :
    as.mapM f = some (as.map g) := by
  induction as with
  | nil => rfl
  | cons a as ih =>
    rw [List.mapM_cons, h a List.mem_cons_self, ih fun b hb => h b (List.mem_cons_of_mem a hb)]
    rfl

theorem cutIndent?_eq {lines : List (List Char)} {line : List Char} {index : Nat}
    (h : (line, index) ∈ lines.zipIdx) :
    cutIndent? (commonIndent lines) line index = some (dedentLine (commonIndent lines) line index) := by
  unfold cutIndent? dedentLine
  split
  · rfl
  · rename_i hIndex
    obtain ⟨k, rfl⟩ := Nat.exists_eq_succ_of_ne_zero hIndex
    have hLine := List.mem_zipIdx_iff_getElem?.mp h
    cases lines with
    | nil => cases hLine
    | cons first rest => exact dropBytes?_indent (commonIndent_le (List.mem_of_getElem? hLine))

theorem cutDedent?_eq (lines : List (List Char)) : cutDedent? lines = some (dedent lines) := by
  have hIndent : ((((lines.drop 1).filter fun line => !isBlankLine line).map indentBytes).min?).getD 0 =
      commonIndent lines := by
    rw [commonIndent, funext indentBytes_eq]
  rw [cutDedent?, dedent, hIndent]
  cases lines.findIdx? fun line => !isBlankLine line with
  | none => rfl
  | some first =>
    simp only
    rw [mapM_eq_map (g := fun (line, index) => dedentLine (commonIndent lines) line index), Option.map_some]
    rintro ⟨line, index⟩ hKept
    exact cutIndent?_eq (List.mem_of_mem_take (List.mem_of_mem_drop hKept))

/-! ## Literals -/

theorem sliceBytes?_quotes (content : List Char) :
    sliceBytes? 3 (byteLength (tripleQuote ++ (content ++ tripleQuote)) - 3)
      (tripleQuote ++ (content ++ tripleQuote)) = some content := by
  have hStart := dropBytes?_append tripleQuote (content ++ tripleQuote)
  have hLength : byteLength (tripleQuote ++ (content ++ tripleQuote)) - 3 - 3 = byteLength content := by
    rw [byteLength_append, byteLength_append, byteLength_tripleQuote]
    omega
  rw [byteLength_tripleQuote] at hStart
  rw [sliceBytes?, hStart, Option.bind_some, hLength, takeBytes?_append]

theorem cutBlock?_eq (raw : List Char) : cutBlock? raw = some (decodeBlock raw) := by
  have hGuard : (byteLength raw < 6 ∨ ¬ tripleQuote <+: raw ∨ ¬ tripleQuote <:+ raw) ↔ ¬ TripleQuoted raw := by
    rw [TripleQuoted, not_and_or, not_and_or, not_le]
    tauto
  unfold cutBlock?
  by_cases h : TripleQuoted raw
  · obtain ⟨content, rfl⟩ := tripleQuoted_iff.mp h
    rw [if_neg (fun hFault => hGuard.mp hFault h), sliceBytes?_quotes, decodeBlock, blockContent?_append]
    simp only [Option.bind_eq_bind, Option.bind_some, cutLines?_eq (Nat.lt_succ_self _), cutDedent?_eq]
    rfl
  · rw [if_pos (hGuard.mpr h), decodeBlock_eq, if_neg h]

/-- A block string is decoded by the passes, and all cuts that are made in doing so are between characters. -/
theorem decodeBlock_passes (raw : List Char) :
    decodeBlock raw =
        (if TripleQuoted raw then .ok (blockStringValue (withoutQuotes raw)) else .error .unterminated) ∧
      cutBlock? raw = some (decodeBlock raw) :=
  ⟨decodeBlock_eq raw, cutBlock?_eq raw⟩

end GraphQLSyntax
