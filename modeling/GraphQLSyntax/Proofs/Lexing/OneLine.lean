import GraphQLSyntax.Proofs.Lexing.NumberText
import GraphQLSyntax.Source.Lines
import GraphQLSyntax.Token.Scan

/-!
# Texts on one line

No character of a name or a number ends a line. The scans of both take a run of characters of one class after the
other, and no line terminator is of any of these classes.
-/

set_option autoImplicit false

namespace GraphQLSyntax

def OneLine (text : List Char) : Prop := ∀ c ∈ text, isLineTerminator c = false

theorem OneLine.nil : OneLine [] := fun _ hc => nomatch hc

theorem OneLine.cons {c : Char} {cs : List Char} (hc : isLineTerminator c = false) (h : OneLine cs) :
    OneLine (c :: cs) :=
  List.forall_mem_cons.mpr ⟨hc, h⟩

theorem OneLine.append {s t : List Char} (hs : OneLine s) (ht : OneLine t) : OneLine (s ++ t) :=
  List.forall_mem_append.mpr ⟨hs, ht⟩

theorem OneLine.take_append {p cs : List Char} (hp : OneLine p) {n : Nat} (hn : OneLine (cs.take n)) :
    OneLine ((p ++ cs).take (p.length + n)) := by
  rw [List.take_length_add_append]
  exact hp.append hn

/-- No line terminator is of a class that has neither of the two. -/
theorem isLineTerminator_of_class {p : Char → Bool} (hFeed : p '\n' = false) (hReturn : p '\r' = false) {c : Char}
    (hc : p c = true) : isLineTerminator c = false := by
  rw [isLineTerminator, Bool.or_eq_false_iff, decide_eq_false_iff_not, decide_eq_false_iff_not]
  constructor
  · rintro rfl
    cases hFeed.symm.trans hc
  · rintro rfl
    cases hReturn.symm.trans hc

theorem oneLine_takeWhile {p : Char → Bool} (hFeed : p '\n' = false) (hReturn : p '\r' = false) (cs : List Char) :
    OneLine (cs.takeWhile p) :=
  fun _ hc => isLineTerminator_of_class hFeed hReturn (of_mem_takeWhile hc)

theorem oneLine_unicodeDigits (cs : List Char) : OneLine (unicodeDigits cs) :=
  oneLine_takeWhile (by decide) (by decide) (cs.take 4)

/-! ## Numbers -/

theorem oneLine_of_allDigits {cs : List Char} (h : AllDigits cs) : OneLine cs :=
  fun c hc => isLineTerminator_of_class (by decide) (by decide) (h c hc)

def NumberScan.length : NumberScan → Nat
  | literal _ length => length
  | fault _ length => length

theorem oneLine_sign (cs : List Char) :
    OneLine (cs.take (if cs.head? = some '+' ∨ cs.head? = some '-' then 1 else 0)) := by
  cases cs with
  | nil => simpa using OneLine.nil
  | cons c cs =>
    split
    · rename_i hSign
      refine .cons ?_ .nil
      rcases hSign with hSign | hSign <;> cases hSign <;> decide
    · exact .nil

theorem scanExponent_oneLine {p : List Char} (hp : OneLine p) (kind : NumberKind) (cs : List Char) :
    OneLine ((p ++ cs).take (scanExponent kind p.length cs).length) := by
  have hAll : OneLine ((p ++ cs).take p.length) := by rwa [List.take_left]
  cases cs with
  | nil => exact hAll
  | cons e cs =>
    rw [scanExponent]
    split
    · rename_i hLetter
      have hSign := oneLine_sign cs
      have hLetter' : OneLine [e] := by
        rcases hLetter with rfl | rfl <;> exact .cons (by decide) .nil
      have hUpTo : ∀ n, OneLine (cs.take n) → OneLine ((p ++ e :: cs).take (p.length + 1 + n)) := by
        intro n hn
        have hTake : (p ++ e :: cs).take (p.length + 1 + n) = p ++ ([e] ++ cs.take n) := by
          rw [Nat.add_assoc, List.take_length_add_append, Nat.add_comm 1 n]
          rfl
        rw [hTake]
        exact hp.append (hLetter'.append hn)
      dsimp only
      generalize (if cs.head? = some '+' ∨ cs.head? = some '-' then 1 else 0) = sign at hSign ⊢
      split
      · exact hUpTo sign hSign
      · rw [NumberScan.length, Nat.add_assoc]
        refine hUpTo _ ?_
        rw [List.take_add]
        exact hSign.append (oneLine_of_allDigits (allDigits_take _))
    · exact hAll

theorem scanFraction_oneLine {p : List Char} (hp : OneLine p) (cs : List Char) :
    OneLine ((p ++ cs).take (scanFraction p.length cs).length) := by
  cases cs with
  | nil => simpa [scanFraction, NumberScan.length] using hp
  | cons c cs =>
    rw [scanFraction]
    split
    · rename_i hPoint
      have hPrefix : OneLine (p ++ '.' :: cs.take (digitRun cs)) :=
        hp.append (.cons (by decide) (oneLine_of_allDigits (allDigits_take cs)))
      have hScan := scanExponent_oneLine hPrefix .float (cs.drop (digitRun cs))
      have hLength : (p ++ '.' :: cs.take (digitRun cs)).length = p.length + 1 + digitRun cs := by
        rw [List.length_append, List.length_cons, length_take_digitRun]
        omega
      have hText : p ++ '.' :: cs.take (digitRun cs) ++ cs.drop (digitRun cs) = p ++ c :: cs := by
        rw [hPoint.1, List.append_assoc, List.cons_append, List.take_append_drop]
      rwa [hLength, hText] at hScan
    · exact scanExponent_oneLine hp .int (c :: cs)

theorem scanNumber_oneLine (text : List Char) : OneLine (text.take (scanNumber text).length) := by
  have hSign : OneLine (text.take (if text.head? = some '-' then 1 else 0)) := by
    cases text with
    | nil => simpa using OneLine.nil
    | cons c cs =>
      split
      · rename_i hMinus
        cases hMinus
        exact .cons (by decide) .nil
      · exact .nil
  rw [scanNumber]
  generalize hWidth : (if text.head? = some '-' then 1 else 0) = width at hSign ⊢
  cases hDrop : text.drop width with
  | nil => exact hSign
  | cons c cs =>
    have hText : text.take width ++ c :: cs = text := by rw [← hDrop, List.take_append_drop]
    have hLength : (text.take width).length = width := by
      rw [List.length_take]
      have hShort : ¬ text.length ≤ width := fun hShort => by simp [List.drop_eq_nil_of_le hShort] at hDrop
      omega
    have hDigits : c.isDigit = true → OneLine (text.take width ++ c :: cs.take (digitRun cs)) := by
      intro hc
      exact hSign.append (oneLine_of_allDigits (List.forall_mem_cons.mpr ⟨hc, allDigits_take cs⟩))
    have hRun : (text.take width ++ c :: cs.take (digitRun cs)).length = width + 1 + digitRun cs := by
      rw [List.length_append, List.length_cons, length_take_digitRun, hLength]
      omega
    have hWhole : text.take width ++ c :: cs.take (digitRun cs) ++ cs.drop (digitRun cs) = text := by
      rw [List.append_assoc, List.cons_append, List.take_append_drop, hText]
    dsimp only
    split
    · rename_i hZero
      subst hZero
      split
      · rename_i hRunZero
        have hScan := scanFraction_oneLine (hDigits rfl) (cs.drop (digitRun cs))
        rwa [hWhole, hRun, hRunZero] at hScan
      · rw [NumberScan.length, ← hRun, ← List.prefix_iff_eq_take.mp ⟨_, hWhole⟩]
        exact hDigits rfl
    · split
      · rename_i hc
        have hScan := scanFraction_oneLine (hDigits hc) (cs.drop (digitRun cs))
        rwa [hWhole, hRun] at hScan
      · exact hSign

/-! ## Tokens -/

theorem scanName_oneLine {c : Char} (hc : isLineTerminator c = false) (cs : List Char) :
    OneLine ((c :: cs).take ((scanName c cs).extra + 1)) := by
  rw [scanName, List.take_succ_cons, take_length_takeWhile]
  exact .cons hc (oneLine_takeWhile (by decide) (by decide) cs)

theorem scanNumberToken_oneLine {c : Char} (hc : isLineTerminator c = false) (cs : List Char) :
    OneLine ((c :: cs).take ((scanNumberToken (c :: cs)).extra + 1)) := by
  have hScan := scanNumber_oneLine (c :: cs)
  have hFirst : ∀ length, OneLine ((c :: cs).take length) → OneLine ((c :: cs).take (length - 1 + 1)) := by
    intro length hLength
    cases length with
    | zero => exact .cons hc .nil
    | succ length => exact hLength
  rw [scanNumberToken]
  cases hCase : scanNumber (c :: cs) with
  | literal kind length | fault fault length =>
    rw [hCase] at hScan
    exact hFirst _ hScan

end GraphQLSyntax
