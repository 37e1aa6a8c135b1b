import GraphQLSyntax.Diagnostic.Snippet
import GraphQLSyntax.Proofs.Faults.Places
import GraphQLSyntax.Proofs.Lexing.Lines
import Mathlib.Data.List.Forall2

/-!
# Errors shown with the text

Under an error stands the line where it starts, with carets under as much of the error as there is on that line. A note
that points at a place is followed by the line of that place.
-/

set_option autoImplicit false

namespace GraphQLSyntax

/-- A line under its number, and carets under it behind what is on its left. -/
def caretSnippet (number : Nat) (left right : List Char) (carets : Nat) : String :=
  let gutter := spaces (gutterWidth (toString number))
  gutter ++ " |\n" ++
  padLeft (gutterWidth (toString number)) (toString number) ++ " | " ++ String.ofList (left ++ right) ++ "\n" ++
  gutter ++ " | " ++ spaces left.length ++ String.ofList (List.replicate carets '^') ++ "\n"

/-- A line under its number, and a dash under the first character on its right. -/
def dashSnippet (number : Nat) (left right : List Char) : String :=
  "     " ++ padLeft (gutterWidth (toString number)) (toString number) ++ " | " ++ String.ofList (left ++ right) ++
  "\n" ++ "     " ++ spaces (gutterWidth (toString number)) ++ " | " ++ spaces left.length ++ "-\n"

/-- How many carets stand under a stretch of text, where `right` is on its first line from its start on. -/
structure Underlines (text right : List Char) (carets : Nat) : Prop where
  positive : 1 ≤ carets
  empty : text = [] → carets = 1
  within : text ≠ [] → (∀ c ∈ text, isLineTerminator c = false) → carets = text.length
  beyond : (∃ c ∈ text, isLineTerminator c = true) → carets = right.length
  inside : carets ≤ right.length ∨ right = [] ∧ carets = 1

/-- The text of a note, with the line that it points at. -/
def Note.ShownAs (source : String) (note : Note) (text : String) : Prop :=
  let head := "   = " ++ note.kind.label ++ ": " ++ note.message ++ "\n"
  (note.span = none → text = head) ∧
    ∀ s, note.span = some s → ∃ left right, s.start.OnLine source.toList left right ∧
      text = head ++ dashSnippet s.place.line left right

section

variable {source : String} {s : Span} {before text after left right : List Char}

/-! ## Carets -/

theorem underlines_line (hLine : ∀ c ∈ text, isLineTerminator c = false) :
    Underlines text ((text ++ after).takeWhile fun c => !isLineTerminator c) (max text.length 1) := by
  have hRight : (text ++ after).takeWhile (fun c => !isLineTerminator c) =
      text ++ after.takeWhile fun c => !isLineTerminator c :=
    List.takeWhile_append_of_pos (by simpa using hLine)
  constructor
  case positive => omega
  case empty =>
    rintro rfl
    rfl
  case within =>
    intro hSome _
    have hLength := List.length_pos_of_ne_nil hSome
    omega
  case beyond =>
    rintro ⟨c, hc, hEnds⟩
    rw [hLine c hc] at hEnds
    cases hEnds
  case inside =>
    rw [hRight, List.length_append]
    cases text with
    | nil =>
      cases hNone : after.takeWhile fun c => !isLineTerminator c with
      | nil => exact .inr ⟨rfl, rfl⟩
      | cons => exact .inl (by simp)
    | cons c text =>
      left
      rw [List.length_cons]
      omega

/-- Carets up to the end of the line, where there is a character at least. -/
theorem underlines_rest (hFirst : ∀ c ∈ text.head?, isLineTerminator c = false)
    (hEnds : ∃ c ∈ text, isLineTerminator c = true) :
    let right := (text ++ after).takeWhile fun c => !isLineTerminator c
    Underlines text right (max right.length 1) := by
  intro right
  have hSome : 1 ≤ right.length := by
    obtain ⟨c, hc, -⟩ := hEnds
    obtain ⟨d, text, rfl⟩ := List.exists_cons_of_ne_nil (List.ne_nil_of_mem hc)
    have hd := hFirst d rfl
    simp [right, hd]
  have hCarets : max right.length 1 = right.length := Nat.max_eq_left hSome
  rw [hCarets]
  constructor
  case positive => exact hSome
  case empty =>
    rintro rfl
    obtain ⟨c, hc, -⟩ := hEnds
    cases hc
  case within =>
    intro _ hLine
    obtain ⟨c, hc, hEnd⟩ := hEnds
    rw [hLine c hc] at hEnd
    cases hEnd
  case beyond => exact fun _ => rfl
  case inside => exact .inl (Nat.le_refl _)

/-- Where the span ends on another line, it has all of the first one behind its start. -/
theorem Span.underlines_caretCount (hFirst : ∀ c ∈ text.head?, isLineTerminator c = false)
    (hStart : s.start = positionAfter before) (hStop : s.stop = positionAfter (before ++ text)) :
    let right := (text ++ after).takeWhile fun c => !isLineTerminator c
    Underlines text right (s.caretCount (lastLine before ++ right)) := by
  intro right
  rw [caretCount, hStart, hStop]
  by_cases hLine : ∀ c ∈ text, isLineTerminator c = false
  · have hLines : (positionAfter (before ++ text)).line = (positionAfter before).line := terminatorCount_line hLine
    have hCarets : (positionAfter (before ++ text)).column - (positionAfter before).column = text.length := by
      simp [positionAfter, lastLine_line hLine]
    rw [if_pos hLines, hCarets]
    exact underlines_line hLine
  · have hCut : ¬ CutsPair before text := by
      rintro ⟨-, hFeed⟩
      cases hFirst '\n' hFeed
    have hLines : (positionAfter (before ++ text)).line ≠ (positionAfter before).line := by
      have hSome : terminatorCount text ≠ 0 := fun hZero => hLine (terminatorCount_eq_zero_iff.mp hZero)
      simp only [positionAfter, terminatorCount_append hCut]
      omega
    have hCarets : (lastLine before ++ right).length - (positionAfter before).column = right.length := by
      simp [positionAfter]
    rw [if_neg hLines, hCarets]
    apply underlines_rest hFirst
    simpa using hLine

/-! ## Snippets -/

theorem errorSnippet?_eq (h : s.start.OnLine source.toList left right) (hColumn : s.start.column ≤ maxPadding) :
    errorSnippet? source s = some (caretSnippet s.place.line left right (s.caretCount (left ++ right))) := by
  have hLine := h.line?_eq
  obtain ⟨-, -, -, -, hLeft, -⟩ := h
  rw [errorSnippet?, hLine]
  dsimp only
  rw [padding?, if_pos hColumn, hLeft]
  rfl

theorem noteSnippet?_eq (h : s.start.OnLine source.toList left right) (hColumn : s.start.column ≤ maxPadding) :
    noteSnippet? source s = some (dashSnippet s.place.line left right) := by
  have hLine := h.line?_eq
  obtain ⟨-, -, -, -, hLeft, -⟩ := h
  rw [noteSnippet?, hLine]
  dsimp only
  rw [padding?, if_pos hColumn, hLeft]
  rfl

/-- A stretch of the text is shown on the line where it starts. -/
theorem Span.Marks.shown (h : s.Marks source.toList) (hColumn : s.start.column ≤ maxPadding) :
    ∃ left right text carets, s.start.OnLine source.toList left right ∧
      s.slice? source = some (String.ofList text) ∧ Underlines text right carets ∧
      errorSnippet? source s = some (caretSnippet s.place.line left right carets) := by
  obtain ⟨before, text, after, hSource, hCut, hStart, hStop, hFirst⟩ := h
  have hOnLine := onLine_positionAfter hCut
  rw [← hSource, ← hStart] at hOnLine
  refine ⟨_, _, text, _, hOnLine, ?_, underlines_caretCount hFirst hStart hStop, errorSnippet?_eq hOnLine hColumn⟩
  apply Span.slice?_eq hSource
  · rw [hStart]
    rfl
  · rw [hStop, ← byteLength_append]
    rfl

/-! ## Notes -/

theorem Note.shown {note : Note}
    (hPlace : ∀ s, note.span = some s → s.start.IsIn source.toList ∧ s.start.column ≤ maxPadding) :
    ∃ text, note.detailed? (some source) = some text ∧ note.ShownAs source text := by
  unfold Note.detailed? Note.ShownAs
  cases hSpan : note.span with
  | none => exact ⟨_, rfl, fun _ => rfl, nofun⟩
  | some s =>
    obtain ⟨⟨before, after, hSource, hCut, hStart⟩, hColumn⟩ := hPlace s hSpan
    have hOnLine := onLine_positionAfter hCut
    rw [← hSource, ← hStart] at hOnLine
    dsimp only
    rw [noteSnippet?_eq hOnLine hColumn]
    refine ⟨_, rfl, nofun, ?_⟩
    intro _ hSame
    cases hSame
    exact ⟨_, _, hOnLine, rfl⟩

theorem exists_mapM {α β : Type} {f : α → Option β} {R : α → β → Prop} {as : List α}
    (h : ∀ a ∈ as, ∃ b, f a = some b ∧ R a b) : ∃ bs, as.mapM f = some bs ∧ List.Forall₂ R as bs := by
  induction as with
  | nil => exact ⟨[], rfl, .nil⟩
  | cons a as ih =>
    obtain ⟨hHead, hTail⟩ := List.forall_mem_cons.mp h
    obtain ⟨b, hb, hR⟩ := hHead
    obtain ⟨bs, hbs, hRest⟩ := ih hTail
    exact ⟨b :: bs, by simp [hb, hbs], .cons hR hRest⟩

end

/-! ## Errors -/

/-- An error is shown with the line where it starts, with carets from its first character on, and with its notes, each
followed by the line that it points at. -/
theorem parse_detailed (file : Option Path) (source : String) (symbol : GrammarSymbol) (e : ParseError)
    (h : parse file source symbol = .error e) (hColumn : e.place.column ≤ 65535)
    (hNotes : ∀ note ∈ e.notes, ∀ s, note.span = some s → s.place.column ≤ 65535) :
    ∃ left right text carets notes,
      e.span.start.OnLine source.toList left right ∧ e.place.column = left.length ∧
      e.span.slice? source = some (String.ofList text) ∧ Underlines text right carets ∧
      List.Forall₂ (Note.ShownAs source) e.notes notes ∧
      e.detailed? (some source) = some ("error: " ++ e.message ++ "\n  --> " ++ e.location ++ "\n" ++
        caretSnippet e.place.line left right carets ++ String.join notes) := by
  obtain ⟨hSpan, hPlaces⟩ := places_of_parse h
  obtain ⟨left, right, text, carets, hOnLine, hSlice, hCarets, hSnippet⟩ := hSpan.shown hColumn
  obtain ⟨notes, hMap, hShown⟩ := @exists_mapM _ _ _ (Note.ShownAs source) e.notes fun note hNote =>
    Note.shown fun s hs => ⟨hPlaces note hNote s hs, hNotes note hNote s hs⟩
  have hLeft : e.place.column = left.length := by
    obtain ⟨-, -, -, -, hLength, -⟩ := hOnLine
    exact hLength
  refine ⟨left, right, text, carets, notes, hOnLine, hLeft, hSlice, hCarets, hShown, ?_⟩
  rw [ParseError.detailed?, hMap, hSnippet]
  rfl

/-- A block string that is never closed, after a carriage return and a line feed. It goes on after its first line, and
its note points at where it starts. -/
theorem parse_detailed_unterminated :
    let source := "\x7ba(b:\r\n \"\"\"c\nd"
    ∃ e, parse none source .document = .error e ∧ e.place = ⟨2, 1⟩ ∧ e.notes.length = 2 ∧
      ∃ left right text carets notes,
        e.span.start.OnLine source.toList left right ∧ e.place.column = left.length ∧
        e.span.slice? source = some (String.ofList text) ∧ Underlines text right carets ∧
        List.Forall₂ (Note.ShownAs source) e.notes notes ∧
        e.detailed? (some source) = some ("error: " ++ e.message ++ "\n  --> " ++ e.location ++ "\n" ++
          caretSnippet e.place.line left right carets ++ String.join notes) := by
  intro source
  have hFound : (reason? (parse none source .document)).map (fun e => (e.place, e.notes.length,
      e.notes.all fun note => note.span.all fun s => s.place.column ≤ 65535)) = some (⟨2, 1⟩, 2, true) := by
    decide +kernel
  obtain ⟨e, hReason, hFacts⟩ := Option.map_eq_some_iff.mp hFound
  obtain ⟨hPlace, hRest⟩ := Prod.mk.inj hFacts
  obtain ⟨hLength, hAll⟩ := Prod.mk.inj hRest
  have hParse := eq_error_of_reason hReason
  have hNotes : ∀ note ∈ e.notes, ∀ s, note.span = some s → s.place.column ≤ 65535 := by
    intro note hNote s hSpan
    have hFits := List.all_eq_true.mp hAll note hNote
    rw [hSpan] at hFits
    exact of_decide_eq_true hFits
  exact ⟨e, hParse, hPlace, hLength, parse_detailed none source .document e hParse (by rw [hPlace]; decide) hNotes⟩

end GraphQLSyntax
