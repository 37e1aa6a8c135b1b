import Mathlib.Logic.Relation
import GraphQLSyntax.Proofs.Command.PathOrder
import GraphQLSyntax.Proofs.Command.Report

/-!
# The order in which files are checked

All files are checked at once, and their outcomes come in the order in which the checks complete. The exit code
and the counts of the report do not depend on that order. The diagnostics are sorted by the paths of the files
and do not depend on it either, unless a file is selected in two spellings of one path: the sort does not tell
these apart, and the diagnostics repeat the spelling.
-/

set_option autoImplicit false

namespace GraphQLSyntax

/-! ## Running checks -/

/-- The files whose checks are running, and the outcomes of those that are complete. -/
structure Pool where
  running : List Path
  outcomes : List FileOutcome

/-- One of the running checks completes. Nothing comes of a file whose diagnostic cannot be laid out. -/
inductive Completes (env : Environment) (maxBytes : Nat) : Pool → Pool → Prop
  | check (before after : List Path) (path : Path) (outcomes : List FileOutcome) :
    Completes env maxBytes ⟨before ++ path :: after, outcomes⟩
      ⟨before ++ after, outcomes ++ (checkFile? env maxBytes path).toList⟩

/-- The checks of the files complete in some order, and their outcomes come in the order given. -/
def CheckedAs (env : Environment) (maxBytes : Nat) (files : List Path) (outcomes : List FileOutcome) : Prop :=
  Relation.ReflTransGen (Completes env maxBytes) ⟨files, []⟩ ⟨[], outcomes⟩

/-- The outcomes are those of some of the files, in any order, and the checks of the others are running. -/
def Pool.Accounts (env : Environment) (maxBytes : Nat) (files : List Path) (s : Pool) : Prop :=
  ∃ complete : List Path, (complete ++ s.running).Perm files ∧ s.outcomes = complete.filterMap (checkFile? env maxBytes)

theorem filterMap_cons_toList {α β : Type} (f : α → Option β) (a : α) (as : List α) :
    (a :: as).filterMap f = (f a).toList ++ as.filterMap f := by
  cases h : f a <;> simp [h]

section

variable {env : Environment} {maxBytes : Nat} {files files' : List Path} {outcomes outcomes' : List FileOutcome}

theorem Pool.Accounts.completes {s s' : Pool} (h : s.Accounts env maxBytes files)
    (hStep : Completes env maxBytes s s') : s'.Accounts env maxBytes files := by
  obtain ⟨complete, hPerm, hOutcomes⟩ := h
  cases hStep with
  | check before after path outcomes =>
    have hMoved : (complete ++ [path] ++ (before ++ after)).Perm (complete ++ (before ++ path :: after)) := by
      rw [List.append_assoc, List.singleton_append]
      exact List.perm_middle.symm.append_left complete
    refine ⟨complete ++ [path], hMoved.trans hPerm, ?_⟩
    rw [List.filterMap_append, ← hOutcomes, filterMap_cons_toList, List.filterMap_nil, List.append_nil]

theorem Pool.Accounts.run {s s' : Pool} (h : s.Accounts env maxBytes files)
    (hRun : Relation.ReflTransGen (Completes env maxBytes) s s') : s'.Accounts env maxBytes files := by
  induction hRun with
  | refl => exact h
  | tail _ hStep ih => exact ih.completes hStep

/-- The outcomes are those of all files in some order. -/
theorem CheckedAs.exists_perm (h : CheckedAs env maxBytes files outcomes) :
    ∃ complete : List Path, complete.Perm files ∧ outcomes = complete.filterMap (checkFile? env maxBytes) := by
  have hStart : Pool.Accounts env maxBytes files ⟨files, []⟩ := ⟨[], .refl files, rfl⟩
  simpa [Pool.Accounts] using hStart.run h

theorem run_of_perm (h : files'.Perm files) (outcomes : List FileOutcome) :
    Relation.ReflTransGen (Completes env maxBytes) ⟨files, outcomes⟩
      ⟨[], outcomes ++ files'.filterMap (checkFile? env maxBytes)⟩ := by
  induction files' generalizing files outcomes with
  | nil =>
    obtain rfl : files = [] := h.symm.eq_nil
    rw [List.filterMap_nil, List.append_nil]
  | cons path files' ih =>
    obtain ⟨before, after, rfl⟩ := List.append_of_mem (h.mem_iff.mp List.mem_cons_self)
    have hRest : files'.Perm (before ++ after) := (h.trans List.perm_middle).cons_inv
    rw [filterMap_cons_toList, ← List.append_assoc]
    exact .head (.check before after path outcomes) (ih hRest _)

/-- The checks can complete in any order. -/
theorem checkedAs_of_perm (h : files'.Perm files) :
    CheckedAs env maxBytes files (files'.filterMap (checkFile? env maxBytes)) :=
  run_of_perm h []

theorem CheckedAs.perm (h : CheckedAs env maxBytes files outcomes)
    (h' : CheckedAs env maxBytes files outcomes') : outcomes.Perm outcomes' := by
  obtain ⟨complete, hPerm, rfl⟩ := h.exists_perm
  obtain ⟨complete', hPerm', rfl⟩ := h'.exists_perm
  exact (hPerm.trans hPerm'.symm).filterMap _

theorem CheckedAs.sorted_perm (h : CheckedAs env maxBytes files outcomes)
    (h' : CheckedAs env maxBytes files outcomes') : (sortOutcomes outcomes).Perm (sortOutcomes outcomes') :=
  (sortOutcomes_perm outcomes).trans ((h.perm h').trans (sortOutcomes_perm outcomes').symm)

theorem checkFile?_path {path : Path} {o : FileOutcome} (h : checkFile? env maxBytes path = some o) :
    o.path = path := by
  unfold checkFile? at h
  split at h
  · cases h; rfl
  · split at h
    · cases h; rfl
    · obtain ⟨text, -, rfl⟩ := Option.map_eq_some_iff.mp h
      rfl

theorem CheckedAs.of_mem (h : CheckedAs env maxBytes files outcomes) {o : FileOutcome} (ho : o ∈ outcomes) :
    o.path ∈ files ∧ diagnostic? env maxBytes o.path = o.diagnostic? := by
  obtain ⟨complete, hPerm, rfl⟩ := h.exists_perm
  obtain ⟨path, hPath, hCheck⟩ := List.mem_filterMap.mp ho
  rw [checkFile?_path hCheck, ← checkFile?_bind_diagnostic?, hCheck]
  exact ⟨hPerm.mem_iff.mp hPath, rfl⟩

end

/-! ## The report of a run -/

/-- The diagnostics of some outcomes in the order in which they are written. -/
def sortedDiagnostics (outcomes : List FileOutcome) : List String :=
  (sortOutcomes outcomes).filterMap FileOutcome.diagnostic?

/-- The report on the outcomes of a run of all checks, whatever was recorded of it. -/
def reportOn (env : Environment) (options : CheckOptions) (outcomes : List FileOutcome)
    (records : List LogRecord) : Report :=
  let found := findFiles env (normalizeExtensions options.extensions) options.paths
  summarize (sortOutcomes outcomes) found.skipped found.faults records

/-- A check reports on the run in which the files are taken one after the other. -/
theorem runCheck_eq_reportOn (env : Environment) (maxBytes : Nat) (options : CheckOptions) :
    ∃ outcomes records, CheckedAs env maxBytes (selectedFiles env options) outcomes ∧
      runCheck env maxBytes options = reportOn env options outcomes records := by
  rw [← (findFiles_selects env options).1]
  exact ⟨_, _, checkedAs_of_perm (.refl _), rfl⟩

/-- No two selected spellings of one path have different diagnostics. -/
def SpellingsAgree (env : Environment) (maxBytes : Nat) (files : List Path) : Prop :=
  ∀ p ∈ files, ∀ q ∈ files, p.same q = true →
    ∀ x y, diagnostic? env maxBytes p = some x → diagnostic? env maxBytes q = some y → x = y

theorem spellingsAgree_of_eq {env : Environment} {maxBytes : Nat} {files : List Path}
    (h : ∀ p ∈ files, ∀ q ∈ files, p.same q = true → p = q) : SpellingsAgree env maxBytes files := by
  intro p hp q hq hSame x y hx hy
  rw [h p hp q hq hSame, hy] at hx
  exact (Option.some.inj hx).symm

section

variable {outcomes outcomes' : List FileOutcome} {skipped : Nat} {faults : List String}
  {records records' : List LogRecord}

theorem summarize_perm (h : outcomes.Perm outcomes') :
    let report := summarize outcomes skipped faults records
    let report' := summarize outcomes' skipped faults records'
    report.exitCode = report'.exitCode ∧ report.standardOutput = report'.standardOutput := by
  have hDiagnostics := h.filterMap FileOutcome.diagnostic?
  have hEmpty : (outcomes.filterMap FileOutcome.diagnostic?).isEmpty =
      (outcomes'.filterMap FileOutcome.diagnostic?).isEmpty := by
    rw [Bool.eq_iff_iff, List.isEmpty_iff, List.isEmpty_iff]
    constructor
    · intro hNone
      exact List.perm_nil.mp (hNone ▸ hDiagnostics.symm)
    · intro hNone
      exact List.perm_nil.mp (hNone ▸ hDiagnostics)
  have hCounts : countDefinitions outcomes = countDefinitions outcomes' := by
    rw [countDefinitions_eq, countDefinitions_eq, (h.filterMap _).sum_eq]
  simp only [summarize, hEmpty, successSummary, failureSummary, h.length_eq, hDiagnostics.length_eq, hCounts]
  split <;> exact ⟨rfl, rfl⟩

theorem summarize_standardError
    (h : outcomes.filterMap FileOutcome.diagnostic? = outcomes'.filterMap FileOutcome.diagnostic?) :
    (summarize outcomes skipped faults records).standardError =
      (summarize outcomes' skipped faults records').standardError := by
  simp only [summarize, h]
  split <;> rfl

end

/-! ## The order of the diagnostics -/

section

variable {env : Environment} {maxBytes : Nat} {files : List Path} {outcomes outcomes' : List FileOutcome}

/-- What is written of an outcome, and the components that it is sorted by. -/
def FileOutcome.sortedFault? (o : FileOutcome) : Option (List PathComponent × String) :=
  o.diagnostic?.map fun text => (o.path.components, text)

theorem FileOutcome.sortedFault?_eq_some {o : FileOutcome} {x : List PathComponent × String} :
    o.sortedFault? = some x ↔ o.path.components = x.1 ∧ o.diagnostic? = some x.2 := by
  obtain ⟨components, text⟩ := x
  cases h : o.diagnostic? <;> simp [sortedFault?, h]

theorem sortedDiagnostics_eq_map (outcomes : List FileOutcome) :
    sortedDiagnostics outcomes = ((sortOutcomes outcomes).filterMap FileOutcome.sortedFault?).map Prod.snd := by
  rw [sortedDiagnostics, List.map_filterMap]
  congr 1
  funext o
  cases h : o.diagnostic? <;> simp [FileOutcome.sortedFault?, h]

theorem pairwise_sortedFaults (outcomes : List FileOutcome) :
    ((sortOutcomes outcomes).filterMap FileOutcome.sortedFault?).Pairwise fun x y =>
      (Path.orderComponents x.1 y.1).isLE = true := by
  rw [List.pairwise_filterMap]
  refine (pairwise_sortOutcomes outcomes).imp fun hBefore x hx y hy => ?_
  rw [← (FileOutcome.sortedFault?_eq_some.mp hx).1, ← (FileOutcome.sortedFault?_eq_some.mp hy).1]
  exact FileOutcome.before_iff.mp hBefore

/-- The diagnostics are written in one order if the order of the paths decides it. -/
theorem CheckedAs.sortedDiagnostics_eq (hSpellings : SpellingsAgree env maxBytes files)
    (h : CheckedAs env maxBytes files outcomes) (h' : CheckedAs env maxBytes files outcomes') :
    sortedDiagnostics outcomes = sortedDiagnostics outcomes' := by
  have hPerm := h.sorted_perm h'
  rw [sortedDiagnostics_eq_map, sortedDiagnostics_eq_map]
  congr 1
  refine List.Perm.eq_of_pairwise ?_ (pairwise_sortedFaults _) (pairwise_sortedFaults _) (hPerm.filterMap _)
  intro x y hx hy hxy hyx
  have hComponents : x.1 = y.1 := Std.LawfulEqCmp.eq_of_compare (Std.OrientedCmp.isLE_antisymm hxy hyx)
  obtain ⟨o, ho, hFault⟩ := List.mem_filterMap.mp hx
  obtain ⟨o', ho', hFault'⟩ := List.mem_filterMap.mp hy
  obtain ⟨hPath, hText⟩ := FileOutcome.sortedFault?_eq_some.mp hFault
  obtain ⟨hPath', hText'⟩ := FileOutcome.sortedFault?_eq_some.mp hFault'
  obtain ⟨hFile, hDiagnostic⟩ := h.of_mem ((sortOutcomes_perm outcomes).mem_iff.mp ho)
  obtain ⟨hFile', hDiagnostic'⟩ := h'.of_mem ((sortOutcomes_perm outcomes').mem_iff.mp ho')
  have hSame : o.path.same o'.path = true := by
    rw [Path.same, hPath, hPath', hComponents, beq_self_eq_true]
  refine Prod.ext hComponents (hSpellings _ hFile _ hFile' hSame _ _ ?_ ?_)
  · rw [hDiagnostic, hText]
  · rw [hDiagnostic', hText']

/-- Two different diagnostics of one path are written in the order in which they came. -/
theorem exists_sortedDiagnostics_ne (h : ¬SpellingsAgree env maxBytes files) :
    ∃ outcomes outcomes', CheckedAs env maxBytes files outcomes ∧ CheckedAs env maxBytes files outcomes' ∧
      sortedDiagnostics outcomes ≠ sortedDiagnostics outcomes' := by
  simp only [SpellingsAgree, not_forall] at h
  obtain ⟨p, hp, q, hq, hSame, x, y, hx, hy, hNe⟩ := h
  have hDiffer : q ≠ p := by
    rintro rfl
    exact hNe (Option.some.inj (hx.symm.trans hy))
  obtain ⟨rest, hFiles⟩ : ∃ rest, (p :: q :: rest).Perm files := by
    have hRest := List.perm_cons_erase ((List.mem_erase_of_ne hDiffer).mpr hq)
    exact ⟨_, ((List.perm_cons_erase hp).trans (hRest.cons p)).symm⟩
  rw [← checkFile?_bind_diagnostic?, Option.bind_eq_some_iff] at hx hy
  obtain ⟨o, hCheck, hText⟩ := hx
  obtain ⟨o', hCheck', hText'⟩ := hy
  have hComponents : o.path.components = o'.path.components := by
    rw [checkFile?_path hCheck, checkFile?_path hCheck']
    exact eq_of_beq hSame
  refine ⟨_, _, checkedAs_of_perm hFiles, checkedAs_of_perm ((List.Perm.swap p q rest).trans hFiles), ?_⟩
  rw [sortedDiagnostics, sortedDiagnostics, List.filterMap_cons_some hCheck, List.filterMap_cons_some hCheck',
    List.filterMap_cons_some hCheck', List.filterMap_cons_some hCheck, sortOutcomes_pair hComponents,
    sortOutcomes_pair hComponents.symm, FileOutcome.before_eq hComponents]
  simp [hText, hText', hNe]

end

/-- All runs of the checks have the same exit code and the same counts. They write the same diagnostics in the same
order unless two selected spellings of one path have different diagnostics, and then some do not. -/
theorem reportOn_schedule (env : Environment) (maxBytes : Nat) (options : CheckOptions) :
    let files := selectedFiles env options
    (∀ outcomes outcomes' records records',
      CheckedAs env maxBytes files outcomes → CheckedAs env maxBytes files outcomes' →
      let report := reportOn env options outcomes records
      let report' := reportOn env options outcomes' records'
      report.exitCode = report'.exitCode ∧ report.standardOutput = report'.standardOutput ∧
        (SpellingsAgree env maxBytes files → report.standardError = report'.standardError)) ∧
    (¬SpellingsAgree env maxBytes files → ∃ outcomes outcomes', CheckedAs env maxBytes files outcomes ∧
      CheckedAs env maxBytes files outcomes' ∧ sortedDiagnostics outcomes ≠ sortedDiagnostics outcomes') := by
  intro files
  constructor
  · intro outcomes outcomes' records records' h h' report report'
    obtain ⟨hExit, hOutput⟩ := summarize_perm (h.sorted_perm h')
    refine ⟨hExit, hOutput, ?_⟩
    intro hSpellings
    exact summarize_standardError (h.sortedDiagnostics_eq hSpellings h')
  · exact exists_sortedDiagnostics_ne

/-- A directory with two files, neither of which is a document. -/
def bracesDirectory : Environment where
  files := (FileTree.directory [⟨['d'], .directory
    [⟨"a.graphql".toList, .file [0x7D]⟩, ⟨"b.graphql".toList, .file [0x7D]⟩]⟩]).locate
  standardInput := []
  logLevel := none

/-- The two files are checked in either order, and the report is the same. -/
theorem reportOn_schedule_directory :
    let options : CheckOptions := ⟨["graphql", "gql"], [⟨"d"⟩]⟩
    let files : List Path := [⟨"d/a.graphql"⟩, ⟨"d/b.graphql"⟩]
    let outcomes := files.filterMap (checkFile? bracesDirectory 100000)
    let outcomes' := files.reverse.filterMap (checkFile? bracesDirectory 100000)
    let report := reportOn bracesDirectory options outcomes []
    let report' := reportOn bracesDirectory options outcomes' []
    CheckedAs bracesDirectory 100000 (selectedFiles bracesDirectory options) outcomes ∧
      CheckedAs bracesDirectory 100000 (selectedFiles bracesDirectory options) outcomes' ∧
      outcomes.map FileOutcome.path ≠ outcomes'.map FileOutcome.path ∧
      report.exitCode = report'.exitCode ∧ report.standardOutput = report'.standardOutput ∧
      report.standardError = report'.standardError := by
  intro options files outcomes outcomes' report report'
  have hSelected : selectedFiles bracesDirectory options = files := by decide +kernel
  have hRun : CheckedAs bracesDirectory 100000 (selectedFiles bracesDirectory options) outcomes :=
    checkedAs_of_perm (.of_eq hSelected.symm)
  have hRun' : CheckedAs bracesDirectory 100000 (selectedFiles bracesDirectory options) outcomes' :=
    checkedAs_of_perm ((List.reverse_perm files).trans (.of_eq hSelected.symm))
  have hSpellings : SpellingsAgree bracesDirectory 100000 (selectedFiles bracesDirectory options) := by
    rw [hSelected]
    exact spellingsAgree_of_eq (by decide +kernel)
  obtain ⟨hSame, -⟩ := reportOn_schedule bracesDirectory 100000 options
  obtain ⟨hExit, hOutput, hError⟩ := hSame outcomes outcomes' [] [] hRun hRun'
  exact ⟨hRun, hRun', by decide +kernel, hExit, hOutput, hError hSpellings⟩

/-- What is written of a file that holds a closing brace, up to the mark below the brace. -/
def braceDiagnostic (path : String) : String :=
  "error: expected operation or fragment definition, found `\x7d`\n" ++
  "  --> " ++ path ++ ":1:1\n   |\n 1 | \x7d\n   | "

theorem reportOn_standardError {env : Environment} {options : CheckOptions} {outcomes : List FileOutcome}
    {records : List LogRecord} {text : String} (hWalked : walkFaults env options.paths = [])
    (hText : String.join ((sortedDiagnostics outcomes).map (· ++ "\n")) = text ++ "^\n\n") :
    (reportOn env options outcomes records).standardError = some (text ++ "^") := by
  have hSome : (sortedDiagnostics outcomes).isEmpty = false := by
    cases hNone : sortedDiagnostics outcomes with
    | nil =>
      rw [hNone] at hText
      simp at hText
    | cons x xs => rfl
  have hTrimmed (cs : List Char) : ('\n' :: '\n' :: '^' :: cs).dropWhile isWhiteSpace = '^' :: cs := rfl
  rw [reportOn, summarize, (findFiles_selects env options).2, hWalked, ← sortedDiagnostics]
  simp [hSome, hText, trimSpaceEnd, hTrimmed, String.ofList_append]

/-- One file is selected in two spellings of its path, and the order of its diagnostics is the order in which
they came. -/
theorem reportOn_schedule_spellings :
    let options : CheckOptions := ⟨["graphql", "gql"], [⟨"d/a.graphql"⟩, ⟨"d//a.graphql"⟩]⟩
    ∃ outcomes outcomes',
      CheckedAs bracesDirectory 100000 (selectedFiles bracesDirectory options) outcomes ∧
      CheckedAs bracesDirectory 100000 (selectedFiles bracesDirectory options) outcomes' ∧
      (reportOn bracesDirectory options outcomes []).standardError ≠
        (reportOn bracesDirectory options outcomes' []).standardError := by
  intro options
  let outcomes := options.paths.filterMap (checkFile? bracesDirectory 100000)
  let outcomes' := options.paths.reverse.filterMap (checkFile? bracesDirectory 100000)
  have hSelected : selectedFiles bracesDirectory options = options.paths := by decide +kernel
  have hWalked : walkFaults bracesDirectory options.paths = [] := by decide +kernel
  have hSorted : sortOutcomes outcomes = outcomes := List.mergeSort_of_pairwise (by decide +kernel)
  have hSorted' : sortOutcomes outcomes' = outcomes' := List.mergeSort_of_pairwise (by decide +kernel)
  have hText : String.join ((sortedDiagnostics outcomes).map (· ++ "\n")) =
      braceDiagnostic "d/a.graphql" ++ "^\n\n" ++ braceDiagnostic "d//a.graphql" ++ "^\n\n" := by
    rw [sortedDiagnostics, hSorted]
    decide +kernel
  have hText' : String.join ((sortedDiagnostics outcomes').map (· ++ "\n")) =
      braceDiagnostic "d//a.graphql" ++ "^\n\n" ++ braceDiagnostic "d/a.graphql" ++ "^\n\n" := by
    rw [sortedDiagnostics, hSorted']
    decide +kernel
  refine ⟨outcomes, outcomes', checkedAs_of_perm (.of_eq hSelected.symm),
    checkedAs_of_perm ((List.reverse_perm _).trans (.of_eq hSelected.symm)), ?_⟩
  rw [reportOn_standardError hWalked hText, reportOn_standardError hWalked hText']
  decide +kernel

end GraphQLSyntax
