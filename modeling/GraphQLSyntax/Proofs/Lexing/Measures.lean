import GraphQLSyntax.Source.Lines
import GraphQLSyntax.Source.Slice

/-!
# Measures of a text

What a mark counts while a scan passes over a text is what can be told from the text alone: its line
terminators, the characters and UTF-16 units after the last of them, and its bytes.
-/

set_option autoImplicit false

namespace GraphQLSyntax

/-- Line feeds, carriage returns, and pairs of both, each counted once. -/
def terminatorCount : List Char → Nat
  | [] => 0
  | '\r' :: '\n' :: cs => terminatorCount cs + 1
  | c :: cs => terminatorCount cs + (isLineTerminator c).toNat

/-- What follows the last line terminator. -/
def lastLine (cs : List Char) : List Char :=
  (cs.reverse.takeWhile fun c => !isLineTerminator c).reverse

/-- The position that is reached after a text. -/
def positionAfter (before : List Char) : Position :=
  ⟨terminatorCount before, (lastLine before).length, some (utf16Length (lastLine before)),
    byteLength before⟩

/-! ## Appending -/

theorem byteLength_eq (cs : List Char) : byteLength cs = (String.ofList cs).utf8ByteSize := by
  induction cs with
  | nil => rfl
  | cons c cs ih =>
    have hCons : String.ofList (c :: cs) = String.singleton c ++ String.ofList cs := by
      rw [← String.toList_inj]
      simp
    rw [byteLength, ih, hCons, String.utf8ByteSize_append, String.utf8ByteSize_singleton]

@[simp] theorem byteLength_append (s t : List Char) :
    byteLength (s ++ t) = byteLength s + byteLength t := by
  induction s with
  | nil => simp [byteLength]
  | cons c s ih =>
    simp only [List.cons_append, byteLength, ih]
    omega

theorem byteLength_eq_length {cs : List Char} (h : ∀ c ∈ cs, c.utf8Size = 1) : byteLength cs = cs.length := by
  induction cs with
  | nil => rfl
  | cons c cs ih =>
    have hRest := ih fun d hd => h d (List.mem_cons_of_mem c hd)
    rw [byteLength, hRest, h c List.mem_cons_self, List.length_cons, Nat.add_comm]

@[simp] theorem utf16Length_append (s t : List Char) :
    utf16Length (s ++ t) = utf16Length s + utf16Length t := by
  induction s with
  | nil => simp [utf16Length]
  | cons c s ih =>
    simp only [List.cons_append, utf16Length, ih]
    omega

theorem terminatorCount_cons {c : Char} {cs : List Char} (h : ¬ (c = '\r' ∧ cs.head? = some '\n')) :
    terminatorCount (c :: cs) = terminatorCount cs + (isLineTerminator c).toNat := by
  rw [terminatorCount]
  rintro ds rfl rfl
  exact h ⟨rfl, rfl⟩

theorem terminatorCount_snoc (cs : List Char) (c : Char) :
    terminatorCount (cs ++ [c]) =
      if c = '\n' ∧ cs.getLast? = some '\r' then terminatorCount cs
      else terminatorCount cs + (isLineTerminator c).toNat := by
  fun_induction terminatorCount cs with
  | case1 => simp [terminatorCount]
  | case2 cs ih =>
    have hLast : ('\r' :: '\n' :: cs).getLast? = some '\r' ↔ cs.getLast? = some '\r' := by
      cases cs <;> simp
    simp only [List.cons_append, terminatorCount, ih, hLast]
    split
    · rfl
    · omega
  | case3 d cs hPair ih =>
    by_cases hReturn : d = '\r' ∧ (cs ++ [c]).head? = some '\n'
    · -- The pair is completed by the last character, since no pair stands at the front.
      obtain ⟨rfl, hFeed⟩ := hReturn
      cases cs with
      | nil =>
        cases hFeed
        rfl
      | cons e cs =>
        cases hFeed
        exact absurd rfl (hPair cs rfl)
    · have hLast : (c = '\n' ∧ (d :: cs).getLast? = some '\r') ↔
          (c = '\n' ∧ cs.getLast? = some '\r') := by
        cases cs with
        | nil => simpa [And.comm] using hReturn
        | cons e cs => rw [List.getLast?_cons_cons]
      rw [List.cons_append, terminatorCount_cons hReturn, ih]
      simp only [hLast]
      split
      · rfl
      · omega

theorem lastLine_snoc (cs : List Char) (c : Char) :
    lastLine (cs ++ [c]) = if isLineTerminator c then [] else lastLine cs ++ [c] := by
  by_cases hc : isLineTerminator c = true <;> simp [lastLine, hc]

theorem lastLine_of_return {cs : List Char} (h : cs.getLast? = some '\r') : lastLine cs = [] := by
  obtain ⟨init, rfl⟩ := List.getLast?_eq_some_iff.mp h
  exact lastLine_snoc init '\r'

/-- A text is split in one way only at a number of bytes. -/
theorem append_inj_of_byteLength {before before' after after' : List Char} (h : before ++ after = before' ++ after')
    (hLength : byteLength before = byteLength before') : before = before' ∧ after = after' := by
  induction before generalizing before' with
  | nil =>
    cases before' with
    | nil => exact ⟨rfl, h⟩
    | cons c before' =>
      have hSize := c.utf8Size_pos
      simp only [byteLength] at hLength
      omega
  | cons c before ih =>
    cases before' with
    | nil =>
      have hSize := c.utf8Size_pos
      simp only [byteLength] at hLength
      omega
    | cons d before' =>
      obtain ⟨rfl, hRest⟩ := List.cons.inj h
      have hTail : byteLength before = byteLength before' := by
        simp only [byteLength] at hLength
        omega
      obtain ⟨rfl, hAfter⟩ := ih hRest hTail
      exact ⟨rfl, hAfter⟩

/-! ## Marks -/

theorem Mark.advance_start (before : List Char) :
    Mark.start.advance before =
      ⟨terminatorCount before, (lastLine before).length, utf16Length (lastLine before),
        byteLength before, before.getLast? == some '\r'⟩ := by
  obtain ⟨reversed, rfl⟩ : ∃ reversed, before = reversed.reverse :=
    ⟨before.reverse, before.reverse_reverse.symm⟩
  induction reversed with
  | nil => rfl
  | cons c reversed ih =>
    rw [List.reverse_cons]
    generalize reversed.reverse = before at ih ⊢
    rw [Mark.advance_append, ih, terminatorCount_snoc, lastLine_snoc]
    by_cases hFeed : c = '\n'
    · subst hFeed
      by_cases hReturn : before.getLast? = some '\r'
      · simp [Mark.step, hReturn, lastLine_of_return hReturn, isLineTerminator, utf16Length, byteLength]
      · simp [Mark.step, hReturn, isLineTerminator, utf16Length, byteLength]
    · by_cases hReturn : c = '\r'
      · subst hReturn
        simp [Mark.step, isLineTerminator, utf16Length, byteLength]
      · have hLine : isLineTerminator c = false := by simp [isLineTerminator, hFeed, hReturn]
        simp [Mark.step, hFeed, hReturn, hLine, utf16Length, byteLength]

theorem Mark.position_start (before : List Char) :
    (Mark.start.advance before).position = positionAfter before := by
  rw [Mark.advance_start]
  rfl

theorem Mark.advance_offset (m : Mark) (text : List Char) :
    (m.advance text).offset = m.offset + byteLength text := by
  induction text generalizing m with
  | nil => rfl
  | cons c text ih =>
    have hStep : (m.step c).offset = m.offset + c.utf8Size := by
      unfold Mark.step
      split
      · split <;> rfl
      · split <;> rfl
    rw [Mark.advance_cons, ih, hStep, byteLength]
    omega

/-! ## Slices -/

theorem dropBytes?_append (s t : List Char) : dropBytes? (byteLength s) (s ++ t) = some t := by
  induction s with
  | nil => simp [byteLength, dropBytes?]
  | cons c s ih =>
    obtain ⟨n, hn⟩ : ∃ n, c.utf8Size + byteLength s = n + 1 :=
      ⟨c.utf8Size + byteLength s - 1, by have := c.utf8Size_pos; omega⟩
    have hRest : n + 1 - c.utf8Size = byteLength s := by omega
    rw [byteLength, hn, List.cons_append, dropBytes?, if_pos (by omega), hRest, ih]

theorem takeBytes?_append (s t : List Char) : takeBytes? (byteLength s) (s ++ t) = some s := by
  induction s with
  | nil => simp [byteLength, takeBytes?]
  | cons c s ih =>
    obtain ⟨n, hn⟩ : ∃ n, c.utf8Size + byteLength s = n + 1 :=
      ⟨c.utf8Size + byteLength s - 1, by have := c.utf8Size_pos; omega⟩
    have hRest : n + 1 - c.utf8Size = byteLength s := by omega
    rw [byteLength, hn, List.cons_append, takeBytes?, if_pos (by omega), hRest, ih]
    rfl

theorem Span.slice?_eq {s : Span} {source : String} {before text after : List Char}
    (hSource : source.toList = before ++ (text ++ after)) (hStart : s.start.offset = byteLength before)
    (hStop : s.stop.offset = byteLength before + byteLength text) :
    s.slice? source = some (String.ofList text) := by
  have hLength : s.stop.offset - s.start.offset = byteLength text := by omega
  rw [Span.slice?, if_pos (by omega), hSource, hLength, hStart, dropBytes?_append]
  simp [takeBytes?_append]

end GraphQLSyntax
