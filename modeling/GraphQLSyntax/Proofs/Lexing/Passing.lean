import GraphQLSyntax.Proofs.Lexing.OneLine
import GraphQLSyntax.Proofs.Lexing.Spelling
import GraphQLSyntax.Token.Lexer

/-!
# Runs that are passed at once

Where the lexer passes a run of characters at once, it counts what it would count one character at a time. This
needs the run to end no line, and it does not: no name, no number and no comment does, and of a string literal
only digits, quotes and backslashes are passed at once.
-/

set_option autoImplicit false

namespace GraphQLSyntax

/-! ## One run -/

theorem utf8Size_of_ascii {c : Char} (h : c.val ≤ 0x7F) : c.utf8Size = 1 :=
  if_pos h

theorem units16_of_ascii {c : Char} (h : c.val ≤ 0x7F) : units16 c = 1 :=
  if_pos (UInt32.le_trans h (by decide))

theorem lengths_of_isAscii {text : List Char} (h : isAscii text = true) :
    byteLength text = text.length ∧ utf16Length text = text.length := by
  induction text with
  | nil => exact ⟨rfl, rfl⟩
  | cons c text ih =>
    simp only [isAscii, List.all_cons, Bool.and_eq_true, decide_eq_true_eq] at h
    obtain ⟨hBytes, hUnits⟩ := ih h.2
    rw [byteLength, utf16Length, hBytes, hUnits, utf8Size_of_ascii h.1, units16_of_ascii h.1, List.length_cons,
      Nat.add_comm]
    exact ⟨rfl, rfl⟩

/-- What starts the tokens that are one run. -/
def StartsRun (c : Char) : Prop :=
  isNameStart c = true ∨ c = '-' ∨ c.isDigit = true

namespace Mark

theorem step_oneLine (m : Mark) {c : Char} (h : isLineTerminator c = false) :
    m.step c = ⟨m.line, m.column + 1, m.column16 + units16 c, m.offset + c.utf8Size, false⟩ := by
  simp only [isLineTerminator, Bool.or_eq_false_iff, decide_eq_false_iff_not] at h
  rw [step, if_neg h.1, if_neg h.2]

/-- The characters of one line are only counted. -/
theorem advance_oneLine (m : Mark) {text : List Char} (h : OneLine text) :
    m.advance text = ⟨m.line, m.column + text.length, m.column16 + utf16Length text, m.offset + byteLength text,
      m.afterReturn && text.isEmpty⟩ := by
  induction text generalizing m with
  | nil => simp [utf16Length, byteLength]
  | cons c text ih =>
    obtain ⟨hc, hText⟩ := List.forall_mem_cons.mp h
    rw [advance_cons, ih _ hText, step_oneLine m hc]
    simp only [List.length_cons, utf16Length, byteLength, List.isEmpty_cons, Bool.and_false, Bool.false_and,
      Nat.add_assoc, Nat.add_comm 1]

theorem passRun_eq (m : Mark) {run : List Char} (h : OneLine run) : m.passRun run = m.advance run := by
  rw [advance_oneLine m h, passRun]
  split
  next hAscii =>
    obtain ⟨hBytes, hUnits⟩ := lengths_of_isAscii hAscii
    rw [hBytes, hUnits]
  next => rfl

/-! ## String literals -/

theorem passQuoted_eq (m : Mark) (skip : Nat) (cs : List Char) :
    m.passQuoted skip cs = m.advance (cs.drop skip) := by
  fun_induction passQuoted m skip cs with
  | case1 => simp
  | case2 m skip c cs ih => rw [ih, List.drop_succ_cons]
  | case3 m cs digits ih =>
    have hDigits : digits ++ cs.drop digits.length = cs :=
      List.prefix_iff_eq_append.mp ((List.takeWhile_prefix _).trans (List.take_prefix 4 cs))
    rw [ih, passRun_eq _ (oneLine_unicodeDigits cs), ← advance_append, hDigits]
    rfl
  | case4 m c cs hLong ih => exact ih
  | case5 m c cs hLong hShort ih => exact ih

theorem passBlock_eq (m : Mark) (cs : List Char) : m.passBlock cs = m.advance cs := by
  fun_induction passBlock m cs with
  | case1 m => rfl
  | case2 m cs ih | case3 m cs ih =>
    rw [ih, passRun_eq _ (by simp [OneLine, tripleQuote, isLineTerminator]), ← advance_append]
    rfl
  | case4 m c cs hClose hEscape ih => exact ih

/-! ## Tokens -/

theorem passToken_eq (m : Mark) {text : List Char} (h : ∀ c ∈ text.head?, StartsRun c → OneLine text) :
    m.passToken text = m.advance text := by
  unfold passToken
  split
  next => rfl
  next => exact m.passBlock_eq _
  next => exact m.passQuoted_eq 0 _
  next c cs _ _ =>
    split
    next hRun => exact m.passRun_eq (h c rfl hRun)
    next => rfl

end Mark

def Scan.lead (s : Scan) : Nat :=
  match s.outcome with
  | .token _ => 0
  | .fault lead _ => lead

theorem scanNumberToken_lead (text : List Char) : (scanNumberToken text).lead = 0 := by
  rw [scanNumberToken]
  cases scanNumber text <;> rfl

theorem scanToken_oneLine {c : Char} (hc : isLineTerminator c = false) (h : StartsRun c) (cs : List Char) :
    OneLine ((c :: cs).take ((scanToken c cs).extra + 1)) ∧ (scanToken c cs).lead = 0 := by
  rcases h with hName | hNumber
  · rw [scanToken_start hName]
    exact ⟨scanName_oneLine hc cs, rfl⟩
  · rw [scanToken_number hNumber]
    exact ⟨scanNumberToken_oneLine hc cs, scanNumberToken_lead _⟩

/-- Neither the end of a token nor the start of its fault depends on what is passed at once. -/
theorem passToken_scanned (m : Mark) {c : Char} (hc : isLineTerminator c = false) (cs : List Char) :
    m.passToken ((c :: cs).take ((scanToken c cs).extra + 1)) =
        m.advance ((c :: cs).take ((scanToken c cs).extra + 1)) ∧
      m.passToken ((c :: cs).take (scanToken c cs).lead) = m.advance ((c :: cs).take (scanToken c cs).lead) := by
  have hFirst : ∀ {n}, ∀ d ∈ ((c :: cs).take n).head?, d = c := by
    intro n d hd
    cases n with
    | zero => cases hd
    | succ n => exact (Option.some.inj hd).symm
  constructor
  · refine m.passToken_eq fun d hd hRun => ?_
    rw [hFirst d hd] at hRun
    exact (scanToken_oneLine hc hRun cs).1
  · refine m.passToken_eq fun d hd hRun => ?_
    rw [hFirst d hd] at hRun
    rw [(scanToken_oneLine hc hRun cs).2]
    exact .nil

end GraphQLSyntax
