import GraphQLSyntax.Proofs.Lexing.Passing

/-!
# The run of the lexer

The lexer looks at every character and keeps its tokens last first. Seen from the places where a token, a
comment or ignored text starts, it takes each of these as a whole.
-/

set_option autoImplicit false

namespace GraphQLSyntax

variable {file : Option Path}

/-- The tokens of what is left of a text at a mark. -/
def lexFrom (file : Option Path) (m : Mark) (cs : List Char) : List Token :=
  (lexOnto file [] m 0 cs).reverse

theorem lex_eq_lexFrom (file : Option Path) (text : String) :
    lex file text = lexFrom file .start text.toList := rfl

/-- Characters that were passed already are left out, and earlier tokens stay as they are. -/
theorem lexOnto_eq (before : List Token) (m : Mark) (skip : Nat) (cs : List Char) :
    lexOnto file before m skip cs = lexOnto file [] m 0 (cs.drop skip) ++ before := by
  induction cs generalizing before m skip with
  | nil => simp [lexOnto]
  | cons c cs ih =>
    cases skip with
    | succ skip => simpa [lexOnto] using ih before m skip
    | zero =>
      simp only [List.drop_zero, lexOnto]
      split
      · simpa using ih before (m.step c) 0
      · split
        · rw [ih before, ih []]
          simp
        · rw [ih (_ :: before), ih [_]]
          simp

theorem isLineTerminator_of_not_ignored {c : Char} (h : isIgnoredChar c = false) : isLineTerminator c = false := by
  rw [isIgnoredChar, Bool.or_eq_false_iff, Bool.or_eq_false_iff] at h
  exact h.1.2

theorem lexFrom_ignored (m : Mark) {c : Char} (h : isIgnoredChar c = true) (cs : List Char) :
    lexFrom file m (c :: cs) = lexFrom file (m.step c) cs := by
  simp [lexFrom, lexOnto, h]

theorem commentRun_append {body cs : List Char} (hBody : OneLine body)
    (hLine : StopsAt (fun c => !isLineTerminator c) cs) : commentRun (body ++ cs) = body.length := by
  rw [commentRun, takeWhile_append_stop (fun c hc => by simpa using hBody c hc) hLine]

theorem lexFrom_comment (m : Mark) {body cs : List Char}
    (hBody : ∀ c ∈ body, isLineTerminator c = false) (hLine : StopsAt (fun c => !isLineTerminator c) cs) :
    lexFrom file m ('#' :: (body ++ cs)) = lexFrom file (m.advance ('#' :: body)) cs := by
  rw [lexFrom, lexOnto, if_neg (by decide), if_pos rfl, commentRun_append hBody hLine, lexOnto_eq, List.take_left,
    List.drop_left, m.passRun_eq (.cons (by decide) hBody)]
  simp [lexFrom]

/-- The token that a scan of a text finds there, told from the characters alone. -/
def Token.ofScan (file : Option Path) (m : Mark) (text : List Char) (s : Scan) : Token :=
  let stop := (m.advance (text.take (s.extra + 1))).position
  match s.outcome with
  | .token kind => ⟨kind, ⟨m.position, stop, file⟩⟩
  | .fault lead fault =>
    ⟨.error fault.message (fault.notes m.position),
      ⟨(m.advance (text.take lead)).position, stop, file⟩⟩

theorem Token.scanned_eq (m : Mark) {c : Char} (hc : isLineTerminator c = false) (cs : List Char) :
    Token.scanned file m (m.passToken ((c :: cs).take ((scanToken c cs).extra + 1))) (c :: cs) (scanToken c cs) =
      Token.ofScan file m (c :: cs) (scanToken c cs) := by
  obtain ⟨hStop, hLead⟩ := passToken_scanned m hc cs
  rw [hStop, Token.scanned, Token.ofScan]
  cases hOutcome : (scanToken c cs).outcome with
  | token kind => rfl
  | fault lead fault =>
    rw [Scan.lead, hOutcome] at hLead
    dsimp only at hLead ⊢
    rw [hLead]

theorem lexFrom_token (m : Mark) {c : Char} (hIgnored : isIgnoredChar c = false) (hSharp : c ≠ '#')
    (cs : List Char) :
    lexFrom file m (c :: cs) =
      Token.ofScan file m (c :: cs) (scanToken c cs) ::
        lexFrom file (m.advance ((c :: cs).take ((scanToken c cs).extra + 1)))
          ((c :: cs).drop ((scanToken c cs).extra + 1)) := by
  have hLine := isLineTerminator_of_not_ignored hIgnored
  rw [lexFrom, lexOnto, if_neg (by simp [hIgnored]), if_neg hSharp]
  dsimp only
  rw [Token.scanned_eq m hLine, (passToken_scanned m hLine cs).1, lexOnto_eq]
  simp [lexFrom]

/-- Ignored text, comments and tokens come one after the other until nothing is left. -/
theorem text_induction {motive : Mark → List Char → Prop} (done : ∀ m, motive m [])
    (ignored : ∀ m c cs, isIgnoredChar c = true → motive (m.step c) cs → motive m (c :: cs))
    (comment : ∀ m body cs, (∀ c ∈ body, isLineTerminator c = false) →
      StopsAt (fun c => !isLineTerminator c) cs →
      motive (m.advance ('#' :: body)) cs → motive m ('#' :: (body ++ cs)))
    (token : ∀ m c cs, isIgnoredChar c = false → c ≠ '#' →
      motive (m.advance ((c :: cs).take ((scanToken c cs).extra + 1)))
        ((c :: cs).drop ((scanToken c cs).extra + 1)) → motive m (c :: cs))
    (m : Mark) (cs : List Char) : motive m cs := by
  induction hLength : cs.length using Nat.strongRecOn generalizing m cs with
  | ind length ih =>
    subst hLength
    cases cs with
    | nil => exact done m
    | cons c cs =>
      by_cases hIgnored : isIgnoredChar c = true
      · exact ignored m c cs hIgnored (ih _ (by simp) _ cs rfl)
      · rw [Bool.not_eq_true] at hIgnored
        by_cases hSharp : c = '#'
        · subst hSharp
          have hBody : ∀ c ∈ cs.takeWhile (fun c => !isLineTerminator c), isLineTerminator c = false :=
            fun c hc => by simpa using of_mem_takeWhile hc
          have hLine := stopsAt_dropWhile (fun c => !isLineTerminator c) cs
          have hSplit : cs.takeWhile (fun c => !isLineTerminator c) ++
              cs.dropWhile (fun c => !isLineTerminator c) = cs := List.takeWhile_append_dropWhile
          have hShorter : (cs.dropWhile fun c => !isLineTerminator c).length < cs.length + 1 :=
            Nat.lt_succ_of_le (List.dropWhile_sublist _).length_le
          rw [← hSplit]
          exact comment m _ _ hBody hLine (ih _ hShorter _ _ rfl)
        · apply token m c cs hIgnored hSharp
          apply ih _ _ _ _ rfl
          simp only [List.length_drop, List.length_cons]
          omega

/-- What holds of the tokens of a text, seen from where each of its parts starts. -/
theorem lexFrom_induction (file : Option Path) {motive : Mark → List Char → List Token → Prop}
    (done : ∀ m, motive m [] [Token.endAt file m])
    (ignored : ∀ m c cs ts, isIgnoredChar c = true → motive (m.step c) cs ts → motive m (c :: cs) ts)
    (comment : ∀ m body cs ts, (∀ c ∈ body, isLineTerminator c = false) →
      StopsAt (fun c => !isLineTerminator c) cs →
      motive (m.advance ('#' :: body)) cs ts → motive m ('#' :: (body ++ cs)) ts)
    (token : ∀ m c cs ts, isIgnoredChar c = false → c ≠ '#' →
      motive (m.advance ((c :: cs).take ((scanToken c cs).extra + 1)))
        ((c :: cs).drop ((scanToken c cs).extra + 1)) ts →
      motive m (c :: cs) (Token.ofScan file m (c :: cs) (scanToken c cs) :: ts))
    (m : Mark) (cs : List Char) : motive m cs (lexFrom file m cs) := by
  induction m, cs using text_induction with
  | done m => exact done m
  | ignored m c cs hIgnored ih =>
    rw [lexFrom_ignored m hIgnored]
    exact ignored m c cs _ hIgnored ih
  | comment m body cs hBody hLine ih =>
    rw [lexFrom_comment m hBody hLine]
    exact comment m body cs _ hBody hLine ih
  | token m c cs hIgnored hSharp ih =>
    rw [lexFrom_token m hIgnored hSharp]
    exact token m c cs _ hIgnored hSharp ih

end GraphQLSyntax
