import GraphQLSyntax.Command.Run

/-!
# The program

Loads what the arguments name, runs the command line on it, and writes what comes out.
-/

set_option autoImplicit false

namespace GraphQLSyntax

def helpText : String :=
  "Parse and syntax-check GraphQL executable documents.\n\n" ++
  "Usage: coke [OPTIONS] [COMMAND]\n\n" ++
  "Commands:\n" ++
  "  check  Syntax-check GraphQL files and directories\n" ++
  "  parse  Parse one input and print the result\n" ++
  "  help   Print this message or the help of the given subcommand(s)\n\n" ++
  "Options:\n" ++
  "      --max-input-bytes <MAX_INPUT_BYTES>  Reject any input larger than this many bytes\n" ++
  "  -v, --verbose                            Enable verbose output\n" ++
  "  -h, --help                               Print help\n" ++
  "  -V, --version                            Print version"

/-- The reason that the system gives, with its number. -/
def systemReason : IO.Error → String
  | .alreadyExists _ code text | .otherError code text | .resourceBusy code text
  | .resourceVanished code text | .unsupportedOperation code text | .hardwareFault code text
  | .unsatisfiedConstraints code text | .illegalOperation code text | .protocolError code text
  | .timeExpired code text | .interrupted _ code text | .noFileOrDirectory _ code text
  | .invalidArgument _ code text | .permissionDenied _ code text | .resourceExhausted _ code text
  | .inappropriateType _ code text | .noSuchThing _ code text =>
    text ++ " (os error " ++ toString code ++ ")"
  | .unexpectedEof => "unexpected end of file"
  | .userError text => text

def loadContent (path : Path) : IO (Except ReadFault (List UInt8)) := do
  match ← (IO.FS.Handle.mk path.text .read).toBaseIO with
  | .error e => return .error (.notOpened (systemReason e))
  | .ok handle =>
    match ← handle.readBinToEnd.toBaseIO with
    | .error e => return .error (.notRead (systemReason e))
    | .ok bytes => return .ok bytes.toList

/-- An error of a walk at a path. The system gives its reasons in full only where a path is opened. -/
def walkError (path : Path) (e : IO.Error) : IO (Except String WalkEntry) := do
  match ← (IO.FS.Handle.mk path.text .read).toBaseIO with
  | .error opening => return .error (walkMessage path (systemReason opening))
  | .ok _ => return .error (walkMessage path (systemReason e))

/-- A file is there, at the end of all links. -/
def isFile (path : Path) : IO Bool := do
  try
    return (← (← IO.FS.realPath path.text).metadata).type matches .file
  catch _ => return false

/-- What a walk meets at a path. The ancestors are the directories that it is in, each with the path that it
was met at and its path without links, the nearest one first. A link to one of them is not followed again. -/
partial def loadWalk (ancestors : List (String × Path)) (path : Path) :
    IO (List (Except String WalkEntry)) := do
  match ← (IO.FS.realPath path.text).toBaseIO with
  | .error e => return [← walkError path e]
  | .ok place =>
    match ← place.metadata.toBaseIO with
    | .error e => return [← walkError path e]
    | .ok data =>
      match data.type, ancestors.lookup place.toString with
      | .dir, some ancestor =>
        return [.error ("File system loop found: " ++ path.text ++ " points to an ancestor " ++
          ancestor.text)]
      | .dir, none =>
        match ← place.readDir.toBaseIO with
        | .error e => return [.ok ⟨path, false⟩, ← walkError path e]
        | .ok entries =>
          let below ← entries.toList.mapM fun e =>
            loadWalk ((place.toString, path) :: ancestors) (path.child e.fileName)
          return .ok ⟨path, false⟩ :: below.flatten
      | type, _ => return [.ok ⟨path, type matches .file⟩]

def loadView (walk : List (Except String WalkEntry)) (path : Path) : IO (String × FileView) := do
  return (path.text, ⟨walk, ← isFile path, ← loadContent path⟩)

/-- What a command can see at a path, and at the files that it meets when it walks the path. -/
def loadFiles (command : Command) : IO (List (String × FileView)) := do
  match command with
  | .parse options => return [← loadView [] options.file]
  | .check options => options.paths.flatMapM fun path => do
    let walk ← loadWalk [] path
    let files := walk.filterMap fun item => (item.toOption.filter WalkEntry.isFile).map WalkEntry.path
    return (← loadView walk path) :: (← files.mapM fun file => loadView [.ok ⟨file, true⟩] file)

def Command.readsStandardInput : Command → Bool
  | .parse options => options.file.isStandardInput
  | .check options => options.paths.any Path.isStandardInput

partial def readAll (input : IO.FS.Stream) (before : List UInt8) : IO (List UInt8) := do
  let bytes ← input.read 65536
  if bytes.isEmpty then return before else readAll input (before ++ bytes.toList)

def loadEnvironment (command : Option Command) : IO Environment := do
  let files ← command.toList.flatMapM loadFiles
  let input ← if command.any Command.readsStandardInput then readAll (← IO.getStdin) [] else pure []
  let missing := FileTree.broken .notFound
  return ⟨fun path => (files.lookup path.text).getD (missing.view path), input, ← IO.getEnv "LOG_LEVEL"⟩

def LogOrigin.text : LogOrigin → String
  | main => "coke"
  | parse => "coke::commands::parse"
  | check => "coke::commands::check"

def writeRecords (records : List LogRecord) : IO Unit :=
  records.forM fun r =>
    IO.eprint (r.level.text ++ " " ++ r.origin.text ++ ": " ++ r.headline ++ "\n" ++
      r.furtherLines)

def writeOutcome : Outcome → IO UInt32
  | .report r => do
    writeRecords r.records
    IO.print (writtenLine r.standardOutput)
    IO.eprint (writtenLine r.standardError)
    return r.exitCode.toUInt32
  | .help records => do
    writeRecords records
    IO.println helpText
    return 0
  | .version => do
    IO.println versionText
    return 0
  | .usageError => do
    IO.eprintln "error: invalid arguments\n\nFor more information, try '--help'."
    return 2

end GraphQLSyntax

open GraphQLSyntax in
def main (args : List String) : IO UInt32 := do
  let command :=
    match readArguments args with
    | .ok i => i.command
    | .error _ => none
  writeOutcome (runArguments (← loadEnvironment command) args)
