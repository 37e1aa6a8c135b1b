import GraphQLSyntax.Proofs.Lexing.Positions

/-!
# The lines of positions

The lexer counts lines as it passes over a text, and a line with a given number is found by splitting the text anew.
Both agree wherever no carriage return is cut off from the line feed that belongs to it.
-/

set_option autoImplicit false

namespace GraphQLSyntax

/-- A position is on a line: `left` stands there in front of it and `right` behind it. The line starts the text or comes
right after a line terminator, all of it, and it ends where the next one starts or the text ends. -/
def Position.OnLine (source : List Char) (p : Position) (left right : List Char) : Prop :=
  ∃ before after, source = before ++ (left ++ (right ++ after)) ∧
    p.line = terminatorCount before ∧ p.column = left.length ∧ p.offset = byteLength before + byteLength left ∧
    (∀ c ∈ before.getLast?, isLineTerminator c = true) ∧ ¬ CutsPair before (left ++ (right ++ after)) ∧
    (∀ c ∈ left ++ right, isLineTerminator c = false) ∧ ∀ c ∈ after.head?, isLineTerminator c = true

/-! ## Counting line terminators -/

section

variable {s t line : List Char}

theorem CutsPair.cons (d : Char) (h : CutsPair s t) : CutsPair (d :: s) t := by
  refine ⟨?_, h.2⟩
  rw [List.getLast?_cons, h.1]
  rfl

/-- A first character that makes no pair with what stands before a place makes none with what stands behind it. -/
theorem not_pair_of_not_cutsPair {d : Char} (hPair : ∀ cs, d = '\r' → s = '\n' :: cs → False)
    (h : ¬ CutsPair (d :: s) t) : ¬ (d = '\r' ∧ (s ++ t).head? = some '\n') := by
  rintro ⟨rfl, hFeed⟩
  cases s with
  | nil => exact h ⟨rfl, hFeed⟩
  | cons e s =>
    cases hFeed
    exact hPair s rfl rfl

theorem terminatorCount_append (h : ¬ CutsPair s t) :
    terminatorCount (s ++ t) = terminatorCount s + terminatorCount t := by
  fun_induction terminatorCount s with
  | case1 => simp
  | case2 s ih =>
    rw [List.cons_append, List.cons_append, terminatorCount, ih fun hCut => h ((hCut.cons _).cons _)]
    omega
  | case3 d s hPair ih =>
    rw [List.cons_append, terminatorCount_cons (not_pair_of_not_cutsPair hPair h), ih fun hCut => h (hCut.cons _)]
    omega

theorem terminatorCount_eq_zero_iff : terminatorCount s = 0 ↔ ∀ c ∈ s, isLineTerminator c = false := by
  fun_induction terminatorCount s with
  | case1 => simp
  | case2 s ih => simp [isLineTerminator]
  | case3 d s hPair ih => cases hLine : isLineTerminator d <;> simp [ih, hLine]

/-- Characters that end no line count for no line, whatever stands before them. -/
theorem terminatorCount_line (hLine : ∀ c ∈ line, isLineTerminator c = false) :
    terminatorCount (s ++ line) = terminatorCount s := by
  rw [terminatorCount_append, terminatorCount_eq_zero_iff.mpr hLine]
  · rfl
  · rintro ⟨-, hFeed⟩
    cases hLine '\n' (List.mem_of_mem_head? hFeed)

theorem lastLine_line (hLine : ∀ c ∈ line, isLineTerminator c = false) : lastLine (s ++ line) = lastLine s ++ line := by
  have hAll : ∀ c ∈ line.reverse, (!isLineTerminator c) = true := by simpa using hLine
  rw [lastLine, List.reverse_append, List.takeWhile_append_of_pos hAll, List.reverse_append, List.reverse_reverse]
  rfl

/-- A text is its last line and what comes before it, which is empty or ends with a line terminator. -/
theorem exists_lastLine (s : List Char) :
    ∃ before, s = before ++ lastLine s ∧ (∀ c ∈ before.getLast?, isLineTerminator c = true) ∧
      ∀ c ∈ lastLine s, isLineTerminator c = false := by
  refine ⟨(s.reverse.dropWhile fun c => !isLineTerminator c).reverse, ?_, ?_, ?_⟩
  · rw [lastLine, ← List.reverse_append, List.takeWhile_append_dropWhile, List.reverse_reverse]
  · intro c hc
    rw [List.getLast?_reverse] at hc
    have hStop := List.head?_dropWhile_not (fun c => !isLineTerminator c) s.reverse
    rw [Option.mem_def.mp hc] at hStop
    simpa using hStop
  · intro c hc
    rw [lastLine, List.mem_reverse] at hc
    simpa using of_mem_takeWhile hc

/-! ## Finding a line -/

theorem line?_cons_succ {c : Char} (h : ¬ (c = '\r' ∧ s.head? = some '\n')) (n : Nat) :
    line? (c :: s) (n + 1) = if isLineTerminator c then line? s n else line? s (n + 1) := by
  have hAfter : afterLine? (c :: s) = if isLineTerminator c then some s else afterLine? s := by
    rw [afterLine?.eq_def]
    split
    · rename_i hNil
      cases hNil
    · rename_i cs hPair
      cases hPair
      exact absurd ⟨rfl, rfl⟩ h
    · rename_i d cs _ hCons
      cases hCons
      rfl
  rw [line?, hAfter]
  cases isLineTerminator c <;> rfl

/-- The lines in front of a place can be passed over, if a line starts there. -/
theorem line?_append (hLast : ∀ c ∈ s.getLast?, isLineTerminator c = true) (h : ¬ CutsPair s t) :
    line? (s ++ t) (terminatorCount s) = line? t 0 := by
  fun_induction terminatorCount s with
  | case1 => rfl
  | case2 s ih =>
    apply ih _ fun hCut => h ((hCut.cons _).cons _)
    intro c hc
    apply hLast
    rw [List.getLast?_cons_cons, List.getLast?_cons, Option.mem_def.mp hc]
    rfl
  | case3 d s hPair ih =>
    have hFront := not_pair_of_not_cutsPair hPair h
    rw [List.getLast?_cons] at hLast
    have hRest : line? (s ++ t) (terminatorCount s) = line? t 0 := by
      apply ih _ fun hCut => h (hCut.cons _)
      intro c hc
      apply hLast
      rw [Option.mem_def.mp hc]
      rfl
    cases hLine : isLineTerminator d with
    | true => rw [List.cons_append, Bool.toNat_true, line?_cons_succ hFront, hLine, if_pos rfl, hRest]
    | false =>
      -- A line starts behind this text, so the first line ends somewhere in what is left of it.
      obtain ⟨n, hn⟩ : ∃ n, terminatorCount s = n + 1 := by
        apply Nat.exists_eq_succ_of_ne_zero
        intro hZero
        have hAll := terminatorCount_eq_zero_iff.mp hZero
        cases hEnd : s.getLast? with
        | none =>
          rw [hLast d (by rw [hEnd]; rfl)] at hLine
          cases hLine
        | some c =>
          have hc := hAll c (List.mem_of_getLast? hEnd)
          rw [hLast c (by rw [hEnd]; rfl)] at hc
          cases hc
      rw [hn] at hRest
      rw [List.cons_append, Bool.toNat_false, Nat.add_zero, hn, line?_cons_succ hFront, hLine, if_neg (by decide), hRest]

/-! ## Positions -/

/-- What stands before a place tells its line, and what stands behind it where the line ends. -/
theorem onLine_positionAfter (h : ¬ CutsPair s t) :
    (positionAfter s).OnLine (s ++ t) (lastLine s) (t.takeWhile fun c => !isLineTerminator c) := by
  obtain ⟨before, hSource, hBefore, hLeft⟩ := exists_lastLine s
  have hRight : ∀ c ∈ t.takeWhile (fun c => !isLineTerminator c), isLineTerminator c = false :=
    fun c hc => by simpa using of_mem_takeWhile hc
  have hSplit : t.takeWhile (fun c => !isLineTerminator c) ++ t.dropWhile (fun c => !isLineTerminator c) = t :=
    List.takeWhile_append_dropWhile
  refine ⟨before, t.dropWhile fun c => !isLineTerminator c, ?_, ?_, rfl, ?_, hBefore, ?_, ?_, ?_⟩
  · rw [hSplit, ← List.append_assoc, ← hSource]
  · rw [positionAfter, hSource, terminatorCount_line hLeft]
  · rw [← byteLength_append, ← hSource]
    rfl
  · rw [hSplit]
    rintro ⟨hReturn, hFeed⟩
    cases hNone : lastLine s with
    | nil =>
      rw [hNone] at hSource hFeed
      rw [hSource, List.append_nil] at h
      exact h ⟨hReturn, hFeed⟩
    | cons c left =>
      rw [hNone] at hFeed hLeft
      cases hFeed
      cases hLeft '\n' (List.mem_cons_self ..)
  · exact List.forall_mem_append.mpr ⟨hLeft, hRight⟩
  · intro c hc
    have hStop := List.head?_dropWhile_not (fun c => !isLineTerminator c) t
    rw [Option.mem_def.mp hc] at hStop
    simpa using hStop

/-- The line of a position is found under its number. -/
theorem Position.OnLine.line?_eq {source left right : List Char} {p : Position} (h : p.OnLine source left right) :
    line? source p.line = some (left ++ right) := by
  obtain ⟨before, after, rfl, hLine, -, -, hBefore, hCut, hPlain, hAfter⟩ := h
  have hAll : ∀ c ∈ left ++ right, (!isLineTerminator c) = true := by simpa using hPlain
  have hStop : after.takeWhile (fun c => !isLineTerminator c) = [] := by
    cases after with
    | nil => rfl
    | cons c after => rw [List.takeWhile_cons, hAfter c rfl, Bool.not_true, if_neg (by decide)]
  rw [hLine, line?_append hBefore hCut, line?, ← List.append_assoc, List.takeWhile_append_of_pos hAll, hStop,
    List.append_nil]

end

end GraphQLSyntax
