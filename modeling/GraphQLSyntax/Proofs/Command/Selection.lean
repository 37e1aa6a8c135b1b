import Mathlib.Data.List.Basic
import GraphQLSyntax.Command.CheckFiles

/-!
# The files that are checked

What the walks of all paths meet is taken in one after the other, errors among it. Of the regular files, those with one
of the extensions are selected, or else the only path if it is a file. Of a walk nothing is relied on but that it meets
a file, and no more, where a file is.
-/

set_option autoImplicit false

namespace GraphQLSyntax

/-! ## Extensions -/

/-- The path has one of the extensions. Case does not count, and leading dots of the extensions neither. -/
def HasOneOf (extensions : List String) (path : Path) : Prop :=
  ∃ e ∈ extensions, ∃ x, path.extension? = some x ∧
    lowerCase x = lowerCase (String.ofList (e.toList.dropWhile (· = '.')))

theorem hasExtension_normalizeExtensions (extensions : List String) (path : Path) :
    hasExtension (normalizeExtensions extensions) path = true ↔ HasOneOf extensions path := by
  unfold hasExtension HasOneOf normalizeExtensions
  cases path.extension? with
  | none => simp
  | some x => simp [eq_comm]

/-! ## What is met on the way -/

/-- A walk of a regular file meets the file and nothing else. -/
def Environment.WalksFiles (env : Environment) : Prop :=
  ∀ path, (env.files path).isFile = true → (env.files path).walk = [.ok ⟨path, true⟩]

theorem FileTree.view_walk {path : Path} (tree : FileTree) (h : (tree.view path).isFile = true) :
    (tree.view path).walk = [.ok ⟨path, true⟩] := by
  cases tree with
  | file bytes => exact walk.eq_1 path bytes
  | directory | broken => cases h

theorem FileTree.locate_walksFiles (root : FileTree) (standardInput : List UInt8) (logLevel : Option String) :
    Environment.WalksFiles ⟨root.locate, standardInput, logLevel⟩ := by
  intro path h
  dsimp only [locate] at h ⊢
  cases hFound : root.find path with
  | ok tree =>
    rw [hFound] at h
    exact view_walk tree h
  | error fault =>
    rw [hFound] at h
    exact view_walk _ h

def entriesOf (items : List (Except String WalkEntry)) : List WalkEntry :=
  items.filterMap Except.toOption

def faultsOf (items : List (Except String WalkEntry)) : List String :=
  items.filterMap fun
    | .ok _ => none
    | .error fault => some fault

@[simp] theorem entriesOf_append (items items' : List (Except String WalkEntry)) :
    entriesOf (items ++ items') = entriesOf items ++ entriesOf items' :=
  List.filterMap_append

@[simp] theorem faultsOf_append (items items' : List (Except String WalkEntry)) :
    faultsOf (items ++ items') = faultsOf items ++ faultsOf items' :=
  List.filterMap_append

theorem faultsOf_eq_nil {items : List (Except String WalkEntry)} :
    faultsOf items = [] ↔ ∀ fault, .error fault ∉ items := by
  rw [faultsOf, List.filterMap_eq_nil_iff]
  constructor
  · intro h fault hFault
    cases h _ hFault
  · intro h item hItem
    cases item with
    | ok e => rfl
    | error fault => exact absurd hItem (h fault)

/-- All that the walks of some paths meet. -/
def walkItems (env : Environment) (paths : List Path) : List (Except String WalkEntry) :=
  paths.flatMap fun path => (env.files path).walk

def walkEntries (env : Environment) (paths : List Path) : List WalkEntry :=
  entriesOf (walkItems env paths)

def walkFaults (env : Environment) (paths : List Path) : List String :=
  faultsOf (walkItems env paths)

theorem walkFaults_eq_nil {env : Environment} {paths : List Path} :
    walkFaults env paths = [] ↔ ∀ path ∈ paths, ∀ fault, .error fault ∉ (env.files path).walk := by
  rw [walkFaults, faultsOf_eq_nil]
  simp only [walkItems, List.mem_flatMap, not_exists, not_and]
  exact ⟨fun h path hPath fault => h fault path hPath, fun h fault path hPath => h path hPath fault⟩

/-- Findings take in what a walk meets. -/
structure TakesIn (extensions : List String) (items : List (Except String WalkEntry)) (f f' : Findings) : Prop where
  files : f'.files = f.files ++
    ((entriesOf items).filter fun e => e.isFile && hasExtension extensions e.path).map WalkEntry.path
  skipped : f'.skipped = f.skipped +
    (entriesOf items).countP fun e => e.isFile && !hasExtension extensions e.path
  faults : f'.faults = f.faults ++ faultsOf items

section

variable {extensions : List String} {items items' : List (Except String WalkEntry)} {f f' f'' : Findings}

theorem TakesIn.refl (f : Findings) : TakesIn extensions [] f f where
  files := by simp [entriesOf]
  skipped := by simp [entriesOf]
  faults := by simp [faultsOf]

theorem TakesIn.trans (h : TakesIn extensions items f f') (h' : TakesIn extensions items' f' f'') :
    TakesIn extensions (items ++ items') f f'' where
  files := by rw [h'.files, h.files, entriesOf_append, List.filter_append, List.map_append, List.append_assoc]
  skipped := by rw [h'.skipped, h.skipped, entriesOf_append, List.countP_append, Nat.add_assoc]
  faults := by rw [h'.faults, h.faults, faultsOf_append, List.append_assoc]

theorem takesIn_addItem (start : Path) (f : Findings) (item : Except String WalkEntry) :
    TakesIn extensions [item] f (f.addItem extensions start item) := by
  cases item with
  | error fault => constructor <;> simp [Findings.addItem, Findings.logTrace, entriesOf, faultsOf, Except.toOption]
  | ok e =>
    cases hFile : e.isFile with
    | false =>
      constructor <;> simp [Findings.addItem, Findings.logTrace, entriesOf, faultsOf, Except.toOption, hFile]
    | true =>
      cases hHas : hasExtension extensions e.path <;> constructor <;>
        simp [Findings.addItem, Findings.logTrace, entriesOf, faultsOf, Except.toOption, hFile, hHas]

theorem takesIn_addItems (start : Path) (items : List (Except String WalkEntry)) (f : Findings) :
    TakesIn extensions items f (items.foldl (Findings.addItem extensions start) f) := by
  induction items generalizing f with
  | nil => exact .refl f
  | cons item items ih => exact (takesIn_addItem start f item).trans (ih _)

theorem takesIn_addPaths (env : Environment) (paths : List Path) (f : Findings) :
    TakesIn extensions (walkItems env paths) f (paths.foldl (Findings.addPath env extensions) f) := by
  induction paths generalizing f with
  | nil => exact .refl f
  | cons path paths ih => exact (takesIn_addItems path (env.files path).walk f).trans (ih _)

end

/-! ## What is selected -/

instance (extensions : List String) (path : Path) : Decidable (HasOneOf extensions path) :=
  decidable_of_iff _ (hasExtension_normalizeExtensions extensions path)

/-- The files met that have one of the extensions. -/
def matchingFiles (env : Environment) (options : CheckOptions) : List Path :=
  ((walkEntries env options.paths).filter fun e =>
    e.isFile && decide (HasOneOf options.extensions e.path)).map WalkEntry.path

/-- The files to be checked. If no file matches, the only path is one of them if it is a file. -/
def selectedFiles (env : Environment) (options : CheckOptions) : List Path :=
  match matchingFiles env options, options.paths with
  | [], [path] => if (env.files path).isFile then [path] else []
  | files, _ => files

/-- The number of files met that are not to be checked. -/
def unselectedCount (env : Environment) (options : CheckOptions) : Nat :=
  (walkEntries env options.paths).countP fun e =>
    e.isFile && !(selectedFiles env options).contains e.path

section

variable {env : Environment} {options : CheckOptions}

theorem mem_matchingFiles {path : Path} :
    path ∈ matchingFiles env options ↔
      HasOneOf options.extensions path ∧
        ∃ e ∈ walkEntries env options.paths, e.isFile = true ∧ e.path = path := by
  constructor
  · intro h
    obtain ⟨e, he, rfl⟩ := List.mem_map.mp h
    obtain ⟨heMet, heKept⟩ := List.mem_filter.mp he
    rw [Bool.and_eq_true, decide_eq_true_eq] at heKept
    exact ⟨heKept.2, e, heMet, heKept.1, rfl⟩
  · rintro ⟨hHas, e, heMet, hFile, rfl⟩
    refine List.mem_map_of_mem (List.mem_filter.mpr ⟨heMet, ?_⟩)
    rw [hFile, Bool.true_and, decide_eq_true hHas]

theorem selectedFiles_of_single {path : Path} (hNone : matchingFiles env options = [])
    (hPaths : options.paths = [path]) (hFile : (env.files path).isFile = true) :
    selectedFiles env options = [path] := by
  rw [selectedFiles, hNone, hPaths]
  exact if_pos hFile

theorem unselectedCount_of_matching (h : selectedFiles env options = matchingFiles env options) :
    unselectedCount env options = (walkEntries env options.paths).countP fun e =>
      e.isFile && !hasExtension (normalizeExtensions options.extensions) e.path := by
  rw [unselectedCount, h]
  refine List.countP_congr fun e heMet => ?_
  have hHas := hasExtension_normalizeExtensions options.extensions e.path
  have hMem : e.isFile = true →
      (e.path ∈ matchingFiles env options ↔ HasOneOf options.extensions e.path) := fun hFile =>
    mem_matchingFiles.trans ⟨And.left, fun hHas => ⟨hHas, e, heMet, hFile, rfl⟩⟩
  cases hFile : e.isFile with
  | false => simp
  | true => simp [hMem hFile, ← hHas]

theorem walkEntries_of_isFile (hWalk : env.WalksFiles) {path : Path} (hFile : (env.files path).isFile = true) :
    walkEntries env [path] = [⟨path, true⟩] := by
  rw [walkEntries, walkItems, List.flatMap_singleton, hWalk path hFile]
  rfl

/-- A file that is the only path is checked whatever its extension. -/
theorem selectedFiles_of_isFile (hWalk : env.WalksFiles) {path : Path} (hPaths : options.paths = [path])
    (hFile : (env.files path).isFile = true) : selectedFiles env options = [path] := by
  have hMet := walkEntries_of_isFile hWalk hFile
  by_cases hHas : HasOneOf options.extensions path
  · have hMatching : matchingFiles env options = [path] := by
      rw [matchingFiles, hPaths, hMet]
      simp [hHas]
    rw [selectedFiles, hMatching]
  · refine selectedFiles_of_single ?_ hPaths hFile
    rw [matchingFiles, hPaths, hMet]
    simp [hHas]

theorem unselectedCount_of_single (hWalk : env.WalksFiles) {path : Path} (hNone : matchingFiles env options = [])
    (hPaths : options.paths = [path]) (hFile : (env.files path).isFile = true) : unselectedCount env options = 0 := by
  rw [unselectedCount, selectedFiles_of_single hNone hPaths hFile, hPaths, walkEntries_of_isFile hWalk hFile]
  simp

/-! ## What is found -/

theorem walkPaths_takesIn (env : Environment) (options : CheckOptions) :
    let found := walkPaths env (normalizeExtensions options.extensions) options.paths
    found.files = matchingFiles env options ∧
      found.skipped = (walkEntries env options.paths).countP (fun e =>
        e.isFile && !hasExtension (normalizeExtensions options.extensions) e.path) ∧
      found.faults = walkFaults env options.paths := by
  have hTakes : TakesIn (normalizeExtensions options.extensions) (walkItems env options.paths) _ _ :=
    takesIn_addPaths env options.paths
      { records := [⟨.debug, .check, "Scanning " ++ toString options.paths.length ++ " input paths..."⟩] }
  refine ⟨?_, hTakes.skipped.trans (Nat.zero_add _), hTakes.faults.trans (List.nil_append _)⟩
  refine (hTakes.files.trans (List.nil_append _)).trans ?_
  unfold matchingFiles walkEntries
  simp only [← hasExtension_normalizeExtensions, Bool.decide_eq_true]

/-- Either the only path is taken, which then is no longer skipped, or all is as the walks left it. -/
theorem findFiles_cases (env : Environment) (options : CheckOptions) :
    let walked := walkPaths env (normalizeExtensions options.extensions) options.paths
    let found := findFiles env (normalizeExtensions options.extensions) options.paths
    found.faults = walked.faults ∧
      ((∃ path, options.paths = [path] ∧ (env.files path).isFile = true ∧ matchingFiles env options = [] ∧
          found.files = [path] ∧ found.skipped = walked.skipped - 1) ∨
        selectedFiles env options = matchingFiles env options ∧ found.files = walked.files ∧
          found.skipped = walked.skipped) := by
  obtain ⟨hFiles, -, -⟩ := walkPaths_takesIn env options
  simp only [findFiles]
  split
  next path hNone hPaths =>
    have hNoMatch : matchingFiles env options = [] := hFiles ▸ hNone
    cases hFile : (env.files path).isFile with
    | true => exact ⟨rfl, .inl ⟨path, hPaths, hFile, hNoMatch, rfl, rfl⟩⟩
    | false =>
      have hSelected : selectedFiles env options = matchingFiles env options := by
        rw [selectedFiles, hNoMatch, hPaths]
        exact if_neg (by simp [hFile])
      exact ⟨rfl, .inr ⟨hSelected, rfl, rfl⟩⟩
  next hOther =>
    have hSelected : selectedFiles env options = matchingFiles env options := by
      rw [selectedFiles, ← hFiles]
      split
      next path hNone hPaths => exact absurd hPaths (hOther path hNone)
      next => rfl
    exact ⟨rfl, .inr ⟨hSelected, rfl, rfl⟩⟩

/-- What is found is what is selected, with all errors. -/
theorem findFiles_selects (env : Environment) (options : CheckOptions) :
    let found := findFiles env (normalizeExtensions options.extensions) options.paths
    found.files = selectedFiles env options ∧ found.faults = walkFaults env options.paths := by
  obtain ⟨hFiles, -, hFaults⟩ := walkPaths_takesIn env options
  obtain ⟨hKept, ⟨path, hPaths, hFile, hNoMatch, hFound, -⟩ | ⟨hSelected, hFound, -⟩⟩ := findFiles_cases env options
  · exact ⟨hFound.trans (selectedFiles_of_single hNoMatch hPaths hFile).symm, hKept.trans hFaults⟩
  · exact ⟨hFound.trans (hFiles.trans hSelected.symm), hKept.trans hFaults⟩

/-- The files that are met and not selected are counted. -/
theorem findFiles_skipped (hWalk : env.WalksFiles) (options : CheckOptions) :
    (findFiles env (normalizeExtensions options.extensions) options.paths).skipped =
      unselectedCount env options := by
  obtain ⟨-, hSkipped, -⟩ := walkPaths_takesIn env options
  obtain ⟨-, ⟨path, hPaths, hFile, hNoMatch, -, hFound⟩ | ⟨hSelected, -, hFound⟩⟩ := findFiles_cases env options
  · have hLess : (walkPaths env (normalizeExtensions options.extensions) options.paths).skipped ≤ 1 := by
      rw [hSkipped, hPaths, walkEntries_of_isFile hWalk hFile]
      exact List.countP_le_length
    rw [hFound, unselectedCount_of_single hWalk hNoMatch hPaths hFile]
    exact Nat.sub_eq_zero_of_le hLess
  · rw [hFound, hSkipped, unselectedCount_of_matching hSelected]

end

end GraphQLSyntax
