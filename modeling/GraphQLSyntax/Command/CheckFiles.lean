import GraphQLSyntax.Command.Arguments
import GraphQLSyntax.Command.Input
import GraphQLSyntax.Command.Report
import GraphQLSyntax.Diagnostic.Snippet
import GraphQLSyntax.Parse

/-!
# Checking files

All files below some paths that have one of some extensions are parsed as documents. One file that is
named alone is checked whatever its extension.
-/

set_option autoImplicit false

namespace GraphQLSyntax

/-- The files found, in the order in which they were met. -/
structure Findings where
  files : List Path := []
  skipped : Nat := 0
  /-- The errors of the walks. -/
  faults : List String := []
  records : List LogRecord := []
  deriving DecidableEq, Repr

def lowerCase (s : String) : String :=
  String.ofList (s.toList.map Char.toLower)

/-- Extensions in lower case and without leading dots, each one once. -/
def normalizeExtensions (extensions : List String) : List String :=
  (extensions.map fun e => lowerCase (String.ofList (e.toList.dropWhile (· = '.')))).eraseDups

def hasExtension (extensions : List String) (path : Path) : Bool :=
  match path.extension? with
  | none => false
  | some e => extensions.contains (lowerCase e)

namespace Findings

def logTrace (f : Findings) (message : String) : Findings :=
  { f with records := f.records ++ [⟨.trace, .check, message⟩] }

/-- Takes in what a walk from a path meets next. -/
def addItem (extensions : List String) (start : Path) (f : Findings) :
    Except String WalkEntry → Findings
  | .ok e =>
    if !e.isFile then f.logTrace ("Skipping non-file: " ++ e.path.escaped ++ ".")
    else if hasExtension extensions e.path then
      { f with files := f.files ++ [e.path] }.logTrace
        ("Found GraphQL file at " ++ e.path.escaped ++ ".")
    else
      { f with skipped := f.skipped + 1 }.logTrace
        ("Skipping non-GraphQL file: " ++ e.path.escaped ++ ".")
  | .error fault =>
    { f with faults := f.faults ++ [fault] }.logTrace
      ("Encountered an error while iterating recursive filesystem entities at/under " ++
        start.escaped ++ ".")

def addPath (env : Environment) (extensions : List String) (f : Findings) (path : Path) :
    Findings :=
  (env.files path).walk.foldl (addItem extensions path) f

end Findings

/-- What is said when the only path is a file with another extension. -/
def otherExtensionWarning (extensions : List String) (path : Path) : LogRecord :=
  ⟨.warn, .check, "Proceeding to check " ++ path.escaped ++
    " even though it doesn't match any of the --graphql-file-exts (" ++
    String.intercalate ", " (extensions.map fun e => "`" ++ e ++ "`") ++ ")."⟩

/-- What the walks of all paths meet, one after the other. -/
def walkPaths (env : Environment) (extensions : List String) (paths : List Path) : Findings :=
  let start : Findings :=
    { records := [⟨.debug, .check, "Scanning " ++ toString paths.length ++ " input paths..."⟩] }
  paths.foldl (Findings.addPath env extensions) start

def findFiles (env : Environment) (extensions : List String) (paths : List Path) : Findings :=
  let found := walkPaths env extensions paths
  let found :=
    match found.files, paths with
    | [], [path] =>
      if (env.files path).isFile then
        { found with
          files := [path], skipped := found.skipped - 1,
          records := found.records ++ [otherExtensionWarning extensions path] }
      else found
    | _, _ => found
  { found with
    records := found.records ++
      [⟨.debug, .check,
        "Found " ++ toString found.files.length ++ " GraphQL files to be checked."⟩] }

/-- The definitions counted in a file, or what is wrong with it. -/
structure FileOutcome where
  path : Path
  result : Except String Nat

/-- Checks one file. Nothing comes of a file whose diagnostic cannot be laid out. -/
def checkFile? (env : Environment) (maxBytes : Nat) (path : Path) : Option FileOutcome :=
  match env.inputText maxBytes path with
  | .error fault => some ⟨path, .error ("error: " ++ fault.message path ++ "\n")⟩
  | .ok source =>
    match parseDocument (some path) source with
    | .ok d => some ⟨path, .ok d.definitions.length⟩
    | .error e => (e.detailed? (some source)).map fun text => ⟨path, .error text⟩

/-- The records of checking the files in order, each with its place among the tasks. -/
def checkRecords (env : Environment) (maxBytes : Nat) (files : List Path) : List LogRecord :=
  files.zipIdx.flatMap fun (path, index) =>
    ⟨.trace, .check, "Checking " ++ path.escaped ++ "..."⟩ ::
      match checkFile? env maxBytes path with
      | some _ => []
      | none =>
        [⟨.warn, .check, "A file check task failed to complete: task " ++ toString index ++
          " panicked with message \"Formatting argument out of range\""⟩]

def FileOutcome.before (a b : FileOutcome) : Bool :=
  a.path.order b.path != .gt

/-- The outcomes of all files in the order of their paths. -/
def checkFiles (env : Environment) (maxBytes : Nat) (files : List Path) : List FileOutcome :=
  (files.filterMap (checkFile? env maxBytes)).mergeSort FileOutcome.before

namespace FileOutcome

def definitions (o : FileOutcome) : Nat :=
  match o.result with
  | .ok n => n
  | .error _ => 0

def diagnostic? (o : FileOutcome) : Option String :=
  match o.result with
  | .ok _ => none
  | .error text => some text

end FileOutcome

def countDefinitions (outcomes : List FileOutcome) : Nat :=
  outcomes.foldl (fun n o => n + o.definitions) 0

def successSummary (outcomes : List FileOutcome) (skipped : Nat) : String :=
  checkMark ++ " All GraphQL parsed successfully:\n" ++
  "  * Checked " ++ toString outcomes.length ++ " files.\n" ++
  "  * Skipped " ++ toString skipped ++ " non-graphql files.\n" ++
  "  * Parsed " ++ toString (countDefinitions outcomes) ++ " definitions."

def failureSummary (outcomes : List FileOutcome) (failed faults : Nat) : String :=
  crossMark ++ " GraphQL syntax errors found:\n" ++
  "  * " ++ toString failed ++ " of " ++ toString outcomes.length ++ " files failed to parse.\n" ++
  "  * " ++ toString faults ++ " paths could not be read."

/-- The report on some outcomes. It is a success only if nothing is wrong with any file or path. -/
def summarize (outcomes : List FileOutcome) (skipped : Nat) (faults : List String)
    (records : List LogRecord) : Report :=
  let diagnostics := outcomes.filterMap FileOutcome.diagnostic?
  if diagnostics.isEmpty && faults.isEmpty then
    ⟨0, some (successSummary outcomes skipped), none, records⟩
  else
    let text := String.join (diagnostics.map (· ++ "\n")) ++
      String.join (faults.map fun fault => "error: " ++ fault ++ "\n\n")
    ⟨1, some (failureSummary outcomes diagnostics.length faults.length),
      some (String.ofList (trimSpaceEnd text.toList)), records⟩

def runCheck (env : Environment) (maxBytes : Nat) (options : CheckOptions) : Report :=
  let found := findFiles env (normalizeExtensions options.extensions) options.paths
  summarize (checkFiles env maxBytes found.files) found.skipped found.faults
    (found.records ++ checkRecords env maxBytes found.files)

end GraphQLSyntax
