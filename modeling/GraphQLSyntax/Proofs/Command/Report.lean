import Mathlib.Algebra.BigOperators.Group.List.Basic
import Mathlib.Algebra.GroupWithZero.Nat
import Mathlib.Data.List.Infix
import GraphQLSyntax.Proofs.Command.Selection
import GraphQLSyntax.Proofs.Lexing.Run

/-!
# What a check reports

A selected file is accepted, or a diagnostic is written of it, or nothing comes of it because its diagnostic
needs wider padding than there is. The report is a success if no walk meets an error and no diagnostic is
written, so that a file of the third kind does not keep it from being one.
-/

set_option autoImplicit false

namespace GraphQLSyntax

/-! ## Padding -/

/-- The span starts on a line of the text, further right than a line can be padded. -/
def Span.TooFarRight (source : String) (s : Span) : Prop :=
  maxPadding < s.start.column ∧ ∃ line, line? source.toList s.start.line = some line

/-- The span of the error or of one of its notes is too far right. -/
def ParseError.TooWide (source : String) (e : ParseError) : Prop :=
  e.span.TooFarRight source ∨ ∃ n ∈ e.notes, ∃ s, n.span = some s ∧ s.TooFarRight source

theorem padding?_eq_none {n : Nat} : padding? n = none ↔ maxPadding < n := by
  simp [padding?]

theorem errorSnippet?_eq_none {source : String} {s : Span} :
    errorSnippet? source s = none ↔ s.TooFarRight source := by
  unfold errorSnippet? Span.TooFarRight
  cases line? source.toList s.start.line with
  | none => simp
  | some line => simp [padding?_eq_none]

theorem noteSnippet?_eq_none {source : String} {s : Span} :
    noteSnippet? source s = none ↔ s.TooFarRight source := by
  unfold noteSnippet? Span.TooFarRight
  cases line? source.toList s.start.line with
  | none => simp
  | some line => simp [padding?_eq_none]

theorem Note.detailed?_eq_none {source : String} {n : Note} :
    n.detailed? (some source) = none ↔ ∃ s, n.span = some s ∧ s.TooFarRight source := by
  unfold Note.detailed?
  cases n.span with
  | none => simp
  | some s => simp [noteSnippet?_eq_none]

theorem mapM_eq_none {α β : Type} {f : α → Option β} {as : List α} :
    as.mapM f = none ↔ ∃ a ∈ as, f a = none := by
  induction as with
  | nil => simp
  | cons a as ih =>
    cases hHead : f a with
    | none => simp [hHead]
    | some b => cases hRest : as.mapM f <;> simpa [hHead, hRest] using ih

theorem ParseError.detailed?_eq_none {source : String} {e : ParseError} :
    e.detailed? (some source) = none ↔ e.TooWide source := by
  have hNotes : e.notes.mapM (fun n => n.detailed? (some source)) = none ↔
      ∃ n ∈ e.notes, ∃ s, n.span = some s ∧ s.TooFarRight source := by
    simp only [mapM_eq_none, Note.detailed?_eq_none]
  rw [ParseError.TooWide, ← errorSnippet?_eq_none, ← hNotes]
  unfold ParseError.detailed?
  cases hSnippet : errorSnippet? source e.span with
  | none => simp [hSnippet]
  | some snippet => cases hNotes : e.notes.mapM (fun n => n.detailed? (some source)) <;> simp [hSnippet]

/-! ## One file -/

section

variable {env : Environment} {maxBytes : Nat} {path : Path}

/-- What is read for the path is not too large, is text, and is a document. -/
def Accepted (env : Environment) (maxBytes : Nat) (path : Path) : Prop :=
  ∃ bytes source d, env.inputBytes path = .ok bytes ∧ bytes.length ≤ maxBytes ∧
    decodeUtf8 bytes = .ok source ∧ parseDocument (some path) source = .ok d

/-- What is read for the path is no document, for a reason that cannot be laid out. -/
def Unshowable (env : Environment) (maxBytes : Nat) (path : Path) : Prop :=
  ∃ source e, env.inputText maxBytes path = .ok source ∧ parseDocument (some path) source = .error e ∧
    e.TooWide source

/-- What is wrong with a file, if it can be laid out. -/
def diagnostic? (env : Environment) (maxBytes : Nat) (path : Path) : Option String :=
  match env.inputText maxBytes path with
  | .error fault => some ("error: " ++ fault.message path ++ "\n")
  | .ok source =>
    match parseDocument (some path) source with
    | .error e => e.detailed? (some source)
    | .ok _ => none

/-- The number of definitions in a file that is accepted. -/
def definitionCount? (env : Environment) (maxBytes : Nat) (path : Path) : Option Nat :=
  match env.inputText maxBytes path with
  | .error _ => none
  | .ok source =>
    match parseDocument (some path) source with
    | .error _ => none
    | .ok d => some d.definitions.length

theorem inputText_eq_ok {source : String} :
    env.inputText maxBytes path = .ok source ↔
      ∃ bytes, env.inputBytes path = .ok bytes ∧ bytes.length ≤ maxBytes ∧ decodeUtf8 bytes = .ok source := by
  unfold Environment.inputText
  cases env.inputBytes path with
  | error fault => simp [Except.bind]
  | ok bytes =>
    simp only [Except.bind, inputText, Except.ok.injEq, exists_eq_left']
    by_cases hLarge : maxBytes < bytes.length
    · simp [hLarge, Nat.not_le_of_lt hLarge]
    · rw [if_neg hLarge]
      cases decodeUtf8 bytes <;> simp [Nat.le_of_not_lt hLarge]

theorem definitionCount?_isSome : (definitionCount? env maxBytes path).isSome = true ↔
    Accepted env maxBytes path := by
  have hAccepted : Accepted env maxBytes path ↔
      ∃ source d, env.inputText maxBytes path = .ok source ∧ parseDocument (some path) source = .ok d := by
    simp only [inputText_eq_ok]
    constructor
    · rintro ⟨bytes, source, d, hBytes, hSize, hText, hParsed⟩
      exact ⟨source, d, ⟨bytes, hBytes, hSize, hText⟩, hParsed⟩
    · rintro ⟨source, d, ⟨bytes, hBytes, hSize, hText⟩, hParsed⟩
      exact ⟨bytes, source, d, hBytes, hSize, hText, hParsed⟩
  rw [hAccepted, definitionCount?]
  cases env.inputText maxBytes path with
  | error fault => simp
  | ok source => cases hParsed : parseDocument (some path) source <;> simp [hParsed]

theorem checkFile?_bind_diagnostic? :
    (checkFile? env maxBytes path).bind FileOutcome.diagnostic? = diagnostic? env maxBytes path := by
  unfold checkFile? diagnostic?
  cases env.inputText maxBytes path with
  | error fault => rfl
  | ok source =>
    dsimp only
    cases parseDocument (some path) source with
    | ok d => rfl
    | error e => cases h : e.detailed? (some source) <;> simp [h, FileOutcome.diagnostic?]

theorem checkFile?_bind_count :
    ((checkFile? env maxBytes path).bind fun o => o.result.toOption) = definitionCount? env maxBytes path := by
  unfold checkFile? definitionCount?
  cases env.inputText maxBytes path with
  | error fault => rfl
  | ok source =>
    dsimp only
    cases parseDocument (some path) source with
    | ok d => rfl
    | error e => cases h : e.detailed? (some source) <;> simp [h, Except.toOption]

theorem checkFile?_eq_none : checkFile? env maxBytes path = none ↔ Unshowable env maxBytes path := by
  unfold checkFile? Unshowable
  cases env.inputText maxBytes path with
  | error fault => simp
  | ok source =>
    cases hParsed : parseDocument (some path) source with
    | ok d => simp [hParsed]
    | error e => simp [hParsed, ParseError.detailed?_eq_none]

theorem diagnostic?_eq_none :
    diagnostic? env maxBytes path = none ↔ Accepted env maxBytes path ∨ Unshowable env maxBytes path := by
  rw [← checkFile?_eq_none, ← definitionCount?_isSome, ← checkFile?_bind_count, ← checkFile?_bind_diagnostic?]
  cases checkFile? env maxBytes path with
  | none => simp
  | some o => cases h : o.result <;> simp [FileOutcome.diagnostic?, h, Except.toOption]

end

/-! ## All files -/

theorem checkFiles_perm (env : Environment) (maxBytes : Nat) (files : List Path) :
    (checkFiles env maxBytes files).Perm (files.filterMap (checkFile? env maxBytes)) :=
  List.mergeSort_perm _ _

theorem diagnostics_perm (env : Environment) (maxBytes : Nat) (files : List Path) :
    ((checkFiles env maxBytes files).filterMap FileOutcome.diagnostic?).Perm
      (files.filterMap (diagnostic? env maxBytes)) := by
  have h := (checkFiles_perm env maxBytes files).filterMap FileOutcome.diagnostic?
  simpa only [List.filterMap_filterMap, checkFile?_bind_diagnostic?] using h

theorem counts_perm (env : Environment) (maxBytes : Nat) (files : List Path) :
    ((checkFiles env maxBytes files).filterMap fun o => o.result.toOption).Perm
      (files.filterMap (definitionCount? env maxBytes)) := by
  have h := (checkFiles_perm env maxBytes files).filterMap fun o => o.result.toOption
  simpa only [List.filterMap_filterMap, checkFile?_bind_count] using h

theorem length_outcomes (outcomes : List FileOutcome) :
    outcomes.length = (outcomes.filterMap FileOutcome.diagnostic?).length +
      (outcomes.filterMap fun o => o.result.toOption).length := by
  induction outcomes with
  | nil => rfl
  | cons o outcomes ih =>
    cases h : o.result <;> simp [FileOutcome.diagnostic?, h, Except.toOption, ih] <;> omega

theorem countDefinitions_eq (outcomes : List FileOutcome) :
    countDefinitions outcomes = (outcomes.filterMap fun o => o.result.toOption).sum := by
  have hFold : ∀ n, outcomes.foldl (fun n o => n + o.definitions) n =
      n + (outcomes.filterMap fun o => o.result.toOption).sum := by
    induction outcomes with
    | nil => intro n; rfl
    | cons o outcomes ih =>
      intro n
      rw [List.foldl_cons, ih]
      cases h : o.result <;> simp [FileOutcome.definitions, h, Except.toOption, Nat.add_assoc]
  exact (hFold 0).trans (Nat.zero_add _)

/-! ## The text of the diagnostics -/

theorem dropWhile_infix {α : Type} (p : α → Bool) (as bs cs : List α) :
    bs.dropWhile p <:+: (as ++ (bs ++ cs)).dropWhile p := by
  induction as with
  | nil =>
    rw [List.nil_append, List.dropWhile_append]
    split
    next hEmpty => rw [List.isEmpty_iff.mp hEmpty]; exact List.nil_infix
    next => exact (List.prefix_append _ _).isInfix
  | cons a as ih =>
    rw [List.cons_append, List.dropWhile_cons]
    split
    · exact ih
    · exact (List.dropWhile_suffix p).isInfix.trans (List.infix_append' (a :: as) bs cs)

/-- Without the space at its end, a text stays whole where a text that it is part of loses the space at its
end. -/
theorem trimSpaceEnd_infix (as bs cs : List Char) :
    trimSpaceEnd bs <:+: trimSpaceEnd (as ++ (bs ++ cs)) := by
  have h := dropWhile_infix isWhiteSpace cs.reverse bs.reverse as.reverse
  unfold trimSpaceEnd
  rw [List.reverse_infix]
  simpa using h

theorem trimSpaceEnd_infix_join {texts : List String} {text : String} (h : text ∈ texts) (start stop rest : String) :
    trimSpaceEnd text.toList <:+:
      trimSpaceEnd (start ++ (String.join (texts.map (· ++ stop)) ++ rest)).toList := by
  obtain ⟨before, after, rfl⟩ := List.append_of_mem h
  simp only [List.map_append, List.map_cons, String.join_append, String.join_cons, String.toList_append,
    List.append_assoc]
  rw [← List.append_assoc]
  exact trimSpaceEnd_infix _ _ _

theorem trimSpaceEnd_infix_diagnostics {diagnostics : List String} {text : String} (h : text ∈ diagnostics)
    (rest : String) : trimSpaceEnd text.toList <:+:
      trimSpaceEnd (String.join (diagnostics.map (· ++ "\n")) ++ rest).toList := by
  simpa using trimSpaceEnd_infix_join h "" "\n" rest

theorem trimSpaceEnd_infix_faults {faults : List String} {fault : String} (h : fault ∈ faults) (start : String) :
    trimSpaceEnd ("error: " ++ fault).toList <:+:
      trimSpaceEnd (start ++ String.join (faults.map fun fault => "error: " ++ fault ++ "\n\n")).toList := by
  have hText : "error: " ++ fault ∈ faults.map ("error: " ++ ·) := List.mem_map_of_mem h
  simpa [List.map_map, Function.comp_def] using trimSpaceEnd_infix_join hText start "\n\n" ""

/-! ## The report -/

/-- Nothing is wrong with any walk or any file that can be shown. -/
def Faultless (env : Environment) (maxBytes : Nat) (options : CheckOptions) : Prop :=
  walkFaults env options.paths = [] ∧ (selectedFiles env options).filterMap (diagnostic? env maxBytes) = []

theorem faultless_iff {env : Environment} {maxBytes : Nat} {options : CheckOptions} :
    Faultless env maxBytes options ↔
      (∀ path ∈ options.paths, ∀ fault, .error fault ∉ (env.files path).walk) ∧
      ∀ path ∈ selectedFiles env options, Accepted env maxBytes path ∨ Unshowable env maxBytes path := by
  simp only [Faultless, walkFaults_eq_nil, List.filterMap_eq_nil_iff, diagnostic?_eq_none]

section

variable {env : Environment} {maxBytes : Nat} {options : CheckOptions}

theorem runCheck_of_faultless (hWalk : env.WalksFiles) (h : Faultless env maxBytes options) :
    let report := runCheck env maxBytes options
    let counts := (selectedFiles env options).filterMap (definitionCount? env maxBytes)
    report.exitCode = 0 ∧ report.standardError = none ∧
      report.standardOutput = some (checkMark ++ " All GraphQL parsed successfully:\n" ++
        "  * Checked " ++ toString counts.length ++ " files.\n" ++
        "  * Skipped " ++ toString (unselectedCount env options) ++ " non-graphql files.\n" ++
        "  * Parsed " ++ toString counts.sum ++ " definitions.") := by
  obtain ⟨hFiles, hFaults⟩ := findFiles_selects env options
  have hSkipped := findFiles_skipped hWalk options
  have hDiagnostics := diagnostics_perm env maxBytes (selectedFiles env options)
  rw [h.2, List.perm_nil] at hDiagnostics
  have hCounts := counts_perm env maxBytes (selectedFiles env options)
  have hLength : (checkFiles env maxBytes (selectedFiles env options)).length =
      ((selectedFiles env options).filterMap (definitionCount? env maxBytes)).length := by
    rw [length_outcomes, hDiagnostics, hCounts.length_eq, List.length_nil, Nat.zero_add]
  have hSum : countDefinitions (checkFiles env maxBytes (selectedFiles env options)) =
      ((selectedFiles env options).filterMap (definitionCount? env maxBytes)).sum := by
    rw [countDefinitions_eq, hCounts.sum_eq]
  simp only [runCheck, hFiles, hSkipped, hFaults, summarize, hDiagnostics, h.1, List.isEmpty_nil, Bool.and_self,
    if_true, successSummary, hLength, hSum, true_and]

theorem runCheck_of_not_faultless (h : ¬Faultless env maxBytes options) :
    let report := runCheck env maxBytes options
    let counts := (selectedFiles env options).filterMap (definitionCount? env maxBytes)
    let diagnostics := (selectedFiles env options).filterMap (diagnostic? env maxBytes)
    report.exitCode = 1 ∧
      (∃ written, report.standardError = some written ∧
        (∀ text ∈ diagnostics, trimSpaceEnd text.toList <:+: written.toList) ∧
        ∀ fault ∈ walkFaults env options.paths, trimSpaceEnd ("error: " ++ fault).toList <:+: written.toList) ∧
      report.standardOutput = some (crossMark ++ " GraphQL syntax errors found:\n" ++
        "  * " ++ toString diagnostics.length ++ " of " ++
          toString (diagnostics.length + counts.length) ++ " files failed to parse.\n" ++
        "  * " ++ toString (walkFaults env options.paths).length ++ " paths could not be read.") := by
  obtain ⟨hFiles, hFaults⟩ := findFiles_selects env options
  have hDiagnostics := diagnostics_perm env maxBytes (selectedFiles env options)
  have hCounts := counts_perm env maxBytes (selectedFiles env options)
  have hFaulty : ¬(((checkFiles env maxBytes (selectedFiles env options)).filterMap
      FileOutcome.diagnostic?).isEmpty && (walkFaults env options.paths).isEmpty) = true := by
    rw [Bool.and_eq_true, List.isEmpty_iff, List.isEmpty_iff]
    rintro ⟨hNone, hWalked⟩
    rw [hNone] at hDiagnostics
    exact h ⟨hWalked, hDiagnostics.symm.eq_nil⟩
  simp only [runCheck, hFiles, hFaults, summarize, if_neg hFaulty, failureSummary, length_outcomes,
    hDiagnostics.length_eq, hCounts.length_eq, and_true, true_and]
  refine ⟨_, rfl, fun text hText => ?_, fun fault hFault => ?_⟩
  · rw [String.toList_ofList]
    exact trimSpaceEnd_infix_diagnostics (hDiagnostics.mem_iff.mpr hText) _
  · rw [String.toList_ofList]
    exact trimSpaceEnd_infix_faults hFault _

end

/-- A check succeeds if no walk meets an error and every selected file is accepted, except that files whose
diagnostic cannot be laid out are left out of account. It then counts the files accepted and their definitions,
and else it writes the diagnostics of all files that have one and the errors of all walks. What is read for a
dash is the standard input. An error of a walk keeps none of what the walk meets later out of this. -/
theorem runCheck_report (env : Environment) (hWalk : env.WalksFiles) (maxBytes : Nat) (options : CheckOptions) :
    let report := runCheck env maxBytes options
    let files := selectedFiles env options
    let counts := files.filterMap (definitionCount? env maxBytes)
    let diagnostics := files.filterMap (diagnostic? env maxBytes)
    (report.exitCode = 0 ↔ (∀ path ∈ options.paths, ∀ fault, .error fault ∉ (env.files path).walk) ∧
      ∀ path ∈ files, Accepted env maxBytes path ∨ Unshowable env maxBytes path) ∧
    (report.exitCode = 0 → report.standardError = none ∧
      report.standardOutput = some (checkMark ++ " All GraphQL parsed successfully:\n" ++
        "  * Checked " ++ toString counts.length ++ " files.\n" ++
        "  * Skipped " ++ toString (unselectedCount env options) ++ " non-graphql files.\n" ++
        "  * Parsed " ++ toString counts.sum ++ " definitions.")) ∧
    (report.exitCode ≠ 0 → report.exitCode = 1 ∧
      (∃ written, report.standardError = some written ∧
        (∀ text ∈ diagnostics, trimSpaceEnd text.toList <:+: written.toList) ∧
        ∀ fault ∈ walkFaults env options.paths, trimSpaceEnd ("error: " ++ fault).toList <:+: written.toList) ∧
      report.standardOutput = some (crossMark ++ " GraphQL syntax errors found:\n" ++
        "  * " ++ toString diagnostics.length ++ " of " ++
          toString (diagnostics.length + counts.length) ++ " files failed to parse.\n" ++
        "  * " ++ toString (walkFaults env options.paths).length ++ " paths could not be read.")) := by
  intro report files counts diagnostics
  rw [← faultless_iff]
  by_cases h : Faultless env maxBytes options
  · have hReport := runCheck_of_faultless hWalk h
    exact ⟨iff_of_true hReport.1 h, fun _ => hReport.2, fun hExit => absurd hReport.1 hExit⟩
  · have hReport := runCheck_of_not_faultless h
    have hExit : report.exitCode ≠ 0 := by
      rw [hReport.1]
      exact Nat.one_ne_zero
    exact ⟨iff_of_false hExit h, fun hZero => absurd hZero hExit, fun _ => hReport⟩

/-- A directory with a document, a file with another extension, and some more entries. -/
def sampleDirectory (more : List FileEntry) : Environment where
  files := (FileTree.directory [⟨['d'], .directory (more ++
    [⟨"a.graphql".toList, .file [0x7B, 0x61, 0x7D]⟩, ⟨"notes.txt".toList, .file []⟩])⟩]).locate
  standardInput := []
  logLevel := none

/-- The document is checked. With a link that leads nowhere beside it, it is still checked, and the check fails. -/
theorem runCheck_report_directory :
    let options : CheckOptions := ⟨["graphql", "gql"], [⟨"d"⟩]⟩
    (let env := sampleDirectory []
      let report := runCheck env 100000 options
      env.WalksFiles ∧ report.exitCode = 0 ∧
        report.standardOutput = some (checkMark ++ " All GraphQL parsed successfully:\n" ++
          "  * Checked 1 files.\n  * Skipped 1 non-graphql files.\n  * Parsed 1 definitions.")) ∧
    (let env := sampleDirectory [⟨"gone".toList, .broken .notFound⟩]
      let report := runCheck env 100000 options
      env.WalksFiles ∧ report.exitCode = 1 ∧
        report.standardOutput = some (crossMark ++ " GraphQL syntax errors found:\n" ++
          "  * 0 of 1 files failed to parse.\n  * 1 paths could not be read.")) := by
  intro options
  constructor
  · intro env report
    have hWalk : env.WalksFiles := FileTree.locate_walksFiles _ _ _
    have hSelected : selectedFiles env options = [⟨"d/a.graphql"⟩] := by decide +kernel
    have hCount : definitionCount? env 100000 ⟨"d/a.graphql"⟩ = some 1 := by decide +kernel
    have hSkipped : unselectedCount env options = 1 := by decide +kernel
    obtain ⟨hExit, hSuccess, -⟩ := runCheck_report env hWalk 100000 options
    have hZero : report.exitCode = 0 := by
      refine hExit.mpr ⟨walkFaults_eq_nil.mp (by decide +kernel), ?_⟩
      rw [hSelected]
      intro path hPath
      rw [List.mem_singleton.mp hPath, ← definitionCount?_isSome, hCount]
      exact .inl rfl
    refine ⟨hWalk, hZero, (hSuccess hZero).2.trans ?_⟩
    simp only [hSelected, hSkipped, List.filterMap_cons, hCount, List.filterMap_nil]
    decide +kernel
  · intro env report
    have hWalk : env.WalksFiles := FileTree.locate_walksFiles _ _ _
    have hSelected : selectedFiles env options = [⟨"d/a.graphql"⟩] := by decide +kernel
    have hCount : definitionCount? env 100000 ⟨"d/a.graphql"⟩ = some 1 := by decide +kernel
    have hFaults : (walkFaults env options.paths).length = 1 := by decide +kernel
    have hNone : diagnostic? env 100000 ⟨"d/a.graphql"⟩ = none := by decide +kernel
    obtain ⟨hExit, -, hFailure⟩ := runCheck_report env hWalk 100000 options
    have hNotZero : report.exitCode ≠ 0 := by
      intro hZero
      rw [walkFaults_eq_nil.mpr (hExit.mp hZero).1] at hFaults
      cases hFaults
    obtain ⟨hOne, -, hOutput⟩ := hFailure hNotZero
    refine ⟨hWalk, hOne, hOutput.trans ?_⟩
    simp only [hSelected, hFaults, List.filterMap_cons, hCount, hNone, List.filterMap_nil]
    decide +kernel

/-! ## Bad files that are passed over -/

/-- A directory with one file. -/
def soleFile (name : String) (bytes standardInput : List UInt8) : Environment where
  files := (FileTree.directory [⟨name.toList, .file bytes⟩]).locate
  standardInput := standardInput
  logLevel := none

section

variable {n maxBytes : Nat}

theorem decodeUtf8From_space (offset : Nat) (before : List Char) (bytes : List UInt8) :
    decodeUtf8From .none offset before (0x20 :: bytes) =
      decodeUtf8From .none (offset + 1) (' ' :: before) bytes := rfl

theorem decodeUtf8_spaces (n : Nat) :
    decodeUtf8 (List.replicate n 0x20 ++ [0x7D]) = .ok (String.ofList (List.replicate n ' ' ++ ['}'])) := by
  have hFrom : ∀ offset before, decodeUtf8From .none offset before (List.replicate n 0x20 ++ [0x7D]) =
      .ok (before.reverse ++ (List.replicate n ' ' ++ ['}'])) := by
    induction n with
    | zero =>
      intro offset before
      exact congrArg Except.ok List.reverse_cons
    | succ n ih =>
      intro offset before
      rw [List.replicate_succ, List.cons_append, decodeUtf8From_space, ih, List.replicate_succ]
      simp
  rw [decodeUtf8, hFrom]
  rfl

theorem lexFrom_spaces (file : Option Path) (m : Mark) (cs : List Char) :
    lexFrom file m (List.replicate n ' ' ++ cs) = lexFrom file (m.advance (List.replicate n ' ')) cs := by
  induction n generalizing m with
  | zero => rfl
  | succ n ih =>
    rw [List.replicate_succ, List.cons_append, lexFrom_ignored m (by decide), ih, Mark.advance_cons]

theorem Mark.advance_spaces (m : Mark) :
    (m.advance (List.replicate n ' ')).line = m.line ∧
      (m.advance (List.replicate n ' ')).column = m.column + n := by
  induction n generalizing m with
  | zero => exact ⟨rfl, rfl⟩
  | succ n ih =>
    obtain ⟨hLine, hColumn⟩ := ih (m.step ' ')
    rw [List.replicate_succ, Mark.advance_cons, hLine, hColumn]
    exact ⟨rfl, by simp [Mark.step]; omega⟩

theorem parseDocument_spaces (file : Option Path) (n : Nat) :
    ∃ e, parseDocument file (String.ofList (List.replicate n ' ' ++ ['}'])) = .error e ∧
      e.span.start.line = 0 ∧ e.span.start.column = n := by
  obtain ⟨hLine, hColumn⟩ := Mark.advance_spaces (n := n) .start
  rw [parseDocument, lex_eq_lexFrom, String.toList_ofList, lexFrom_spaces]
  refine ⟨_, rfl, hLine, hColumn.trans (Nat.zero_add n)⟩

/-- A brace too far right is no document, and the reason cannot be laid out. -/
theorem unshowable_spaces (hWide : maxPadding < n) (hSize : n < maxBytes) {env : Environment} {path : Path}
    (hRead : env.inputBytes path = .ok (List.replicate n 0x20 ++ [0x7D])) : Unshowable env maxBytes path := by
  obtain ⟨e, hFails, hLine, hColumn⟩ := parseDocument_spaces (some path) n
  refine ⟨_, e, inputText_eq_ok.mpr ⟨_, hRead, ?_, decodeUtf8_spaces n⟩, hFails, .inl ⟨?_, ?_⟩⟩
  · rw [List.length_append, List.length_replicate]
    exact hSize
  · rwa [hColumn]
  · rw [hLine]
    exact ⟨_, rfl⟩

theorem not_accepted_of_unshowable {env : Environment} {path : Path} (h : Unshowable env maxBytes path) :
    ¬Accepted env maxBytes path := by
  rw [← definitionCount?_isSome, ← checkFile?_bind_count, checkFile?_eq_none.mpr h]
  exact Bool.false_ne_true

/-- The only file is no document, and the check still succeeds. -/
theorem runCheck_spaces (hWide : maxPadding < n) (hSize : n < maxBytes) :
    let env := soleFile "a.graphql" (List.replicate n 0x20 ++ [0x7D]) []
    let options : CheckOptions := ⟨["graphql", "gql"], [⟨"a.graphql"⟩]⟩
    selectedFiles env options = [⟨"a.graphql"⟩] ∧ ¬Accepted env maxBytes ⟨"a.graphql"⟩ ∧
      (runCheck env maxBytes options).exitCode = 0 := by
  intro env options
  have hWalk : env.WalksFiles := FileTree.locate_walksFiles _ _ _
  have hSelected : selectedFiles env options = [⟨"a.graphql"⟩] := selectedFiles_of_isFile hWalk rfl rfl
  have hUnshowable : Unshowable env maxBytes ⟨"a.graphql"⟩ := unshowable_spaces hWide hSize rfl
  have hFaultless : Faultless env maxBytes options := by
    rw [faultless_iff, hSelected]
    constructor
    · intro path hPath fault
      rw [List.mem_singleton.mp hPath, hWalk _ rfl]
      simp
    · intro path hPath
      rw [List.mem_singleton.mp hPath]
      exact .inr hUnshowable
  exact ⟨hSelected, not_accepted_of_unshowable hUnshowable, (runCheck_of_faultless hWalk hFaultless).1⟩

end

/-- Two files that are no documents, of which a check says nothing: the diagnostic of one cannot be laid out, and
of the other, which has the name of the standard input, that is read in its place. -/
theorem runCheck_report_overlooked :
    (let env := soleFile "a.graphql" (List.replicate 65536 0x20 ++ [0x7D]) []
      let options : CheckOptions := ⟨["graphql", "gql"], [⟨"a.graphql"⟩]⟩
      selectedFiles env options = [⟨"a.graphql"⟩] ∧ ¬Accepted env 100000 ⟨"a.graphql"⟩ ∧
        (runCheck env 100000 options).exitCode = 0) ∧
    (let env := soleFile "-" [0x7D] [0x7B, 0x61, 0x7D]
      let options : CheckOptions := ⟨["graphql", "gql"], [⟨"-"⟩]⟩
      selectedFiles env options = [⟨"-"⟩] ∧ (env.files ⟨"-"⟩).content = .ok [0x7D] ∧
        (∃ e, decodeUtf8 [0x7D] = .ok "\x7d" ∧ parseDocument (some ⟨"-"⟩) "\x7d" = .error e) ∧
        (runCheck env 100000 options).exitCode = 0) :=
  ⟨runCheck_spaces (by decide) (by decide), selectedFiles_of_isFile (FileTree.locate_walksFiles _ _ _) rfl rfl, rfl,
    ⟨_, by decide +kernel, rfl⟩, by decide +kernel⟩

end GraphQLSyntax
