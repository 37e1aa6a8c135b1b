import GraphQLSyntax.Grammar.Symbol
import GraphQLSyntax.Number.Integer
import GraphQLSyntax.Source.Path

/-!
# Command line arguments

Options stand before the command or after it, with their values behind an equals sign or in the next
argument. A value is read only when the next option comes or the arguments end, so of two mistakes the
one that is settled first counts, and a request for help may come before it.
-/

set_option autoImplicit false

namespace GraphQLSyntax

inductive OutputFormat where
  | debug
  | json
  | graphql
  deriving DecidableEq, Repr

def OutputFormat.ofWord? (word : String) : Option OutputFormat :=
  if word = "debug" then some debug
  else if word = "json" then some json
  else if word = "graphql" then some graphql
  else none

structure ParseOptions where
  symbol : GrammarSymbol
  format : OutputFormat
  file : Path
  deriving DecidableEq, Repr

structure CheckOptions where
  extensions : List String
  paths : List Path
  deriving DecidableEq, Repr

inductive Command where
  | parse (options : ParseOptions)
  | check (options : CheckOptions)
  deriving DecidableEq, Repr

structure Invocation where
  maxInputBytes : Nat
  verbose : Bool
  /-- Without a command, help is shown. -/
  command : Option Command
  deriving DecidableEq, Repr

/-- Why the arguments are no invocation. -/
inductive Stop where
  | help
  | version
  | usage
  deriving DecidableEq, Repr

/-- What a value is for. -/
inductive Slot where
  | maxInputBytes
  | symbol
  | format
  | extensions
  | path
  deriving DecidableEq, Repr

inductive Switch where
  | verbose
  | help
  | version
  deriving DecidableEq, Repr

/-- Which arguments are known: those before the command, or those of one command. -/
inductive ArgumentLevel where
  | root
  | parse
  | check
  deriving DecidableEq, Repr

namespace ArgumentLevel

def slot? (level : ArgumentLevel) (name : String) : Option Slot :=
  if name = "max-input-bytes" then some .maxInputBytes
  else if level = .parse ∧ name = "entry-point" then some .symbol
  else if level = .parse ∧ name = "format" then some .format
  else if level = .check ∧ name = "graphql-file-exts" then some .extensions
  else none

def longSwitch? (level : ArgumentLevel) (name : String) : Option Switch :=
  if name = "verbose" then some .verbose
  else if name = "help" then some .help
  else if level = .root ∧ name = "version" then some .version
  else none

def shortSwitch? (level : ArgumentLevel) (c : Char) : Option Switch :=
  if c = 'v' then some .verbose
  else if c = 'h' then some .help
  else if level = .root ∧ c = 'V' then some .version
  else none

/-- Whether one more path is accepted after some. -/
def acceptsPath (level : ArgumentLevel) (paths : Nat) : Bool :=
  match level with
  | .root => false
  | .parse => paths = 0
  | .check => true

end ArgumentLevel

structure Readings where
  maxInputBytes : Option Nat := none
  verbose : Bool := false
  symbol : Option GrammarSymbol := none
  format : Option OutputFormat := none
  extensions : Option (List String) := none
  paths : List Path := []
  /-- Values that are given but not read yet. -/
  pending : List (Slot × String) := []
  /-- The option whose value comes next. -/
  waiting : Option Slot := none
  pathCount : Nat := 0
  deriving DecidableEq, Repr

namespace Readings

/-- Reads a value that can be given only once. -/
def once {α : Type} (old : Option α) (new : Option α) : Except Stop (Option α) :=
  match old, new with
  | none, some a => .ok (some a)
  | _, _ => .error .usage

def read (r : Readings) (slot : Slot) (raw : String) : Except Stop Readings :=
  match slot with
  | .maxInputBytes =>
    (once r.maxInputBytes (readNat64? raw.toList)).map fun n => { r with maxInputBytes := n }
  | .symbol => (once r.symbol (GrammarSymbol.ofName? raw)).map fun s => { r with symbol := s }
  | .format => (once r.format (OutputFormat.ofWord? raw)).map fun f => { r with format := f }
  | .extensions =>
    let words := (splitAtChar ',' raw.toList).map String.ofList
    .ok { r with extensions := some (r.extensions.getD [] ++ words) }
  | .path => if raw = "" then .error .usage else .ok { r with paths := r.paths ++ [⟨raw⟩] }

def readAll (r : Readings) : List (Slot × String) → Except Stop Readings
  | [] => .ok r
  | (slot, raw) :: values =>
    match r.read slot raw with
    | .ok r => r.readAll values
    | .error stop => .error stop

/-- Reads all values given so far. None may be missing. -/
def settle (r : Readings) : Except Stop Readings :=
  match r.waiting with
  | some _ => .error .usage
  | none => { r with pending := [] }.readAll r.pending

def flip (r : Readings) (s : Switch) : Except Stop Readings :=
  match r.settle with
  | .error stop => .error stop
  | .ok r =>
    match s with
    | .verbose => if r.verbose then .error .usage else .ok { r with verbose := true }
    | .help => .error .help
    | .version => .error .version

/-- A cluster of one-letter switches. -/
def flipAll (r : Readings) (level : ArgumentLevel) : List Char → Except Stop Readings
  | [] => .ok r
  | c :: cs =>
    match level.shortSwitch? c with
    | none => .error .usage
    | some s =>
      match r.flip s with
      | .ok r => r.flipAll level cs
      | .error stop => .error stop

/-- A long option, with the value behind its equals sign if there is one. -/
def long (r : Readings) (level : ArgumentLevel) (cs : List Char) : Except Stop Readings :=
  let name := String.ofList (cs.takeWhile (· != '='))
  match level.slot? name, cs.dropWhile (· != '=') with
  | some slot, [] => r.settle.map fun r => { r with waiting := some slot }
  | some slot, _ :: raw => r.settle.bind fun r => r.read slot (String.ofList raw)
  | none, [] =>
    match level.longSwitch? name with
    | some s => r.flip s
    | none => .error .usage
  | none, _ :: _ => .error .usage

def positional (r : Readings) (level : ArgumentLevel) (raw : String) : Except Stop Readings :=
  if level.acceptsPath r.pathCount then
    .ok { r with pending := r.pending ++ [(.path, raw)], pathCount := r.pathCount + 1 }
  else .error .usage

/-- An argument that is no option: the value that an option waits for, or a path. -/
def plain (r : Readings) (level : ArgumentLevel) (raw : String) : Except Stop Readings :=
  match r.waiting with
  | some slot => .ok { r with pending := [(slot, raw)], waiting := none }
  | none => r.positional level raw

/-- Arguments after two dashes, which are all paths. -/
def trailing (r : Readings) (level : ArgumentLevel) : List String → Except Stop Readings
  | [] => r.settle
  | raw :: args =>
    match r.positional level raw with
    | .ok r => r.trailing level args
    | .error stop => .error stop

end Readings

/-- One argument that may be an option. A dash alone is none. -/
def readArgument (level : ArgumentLevel) (r : Readings) (arg : String) : Except Stop Readings :=
  match arg.toList with
  | '-' :: '-' :: cs => r.long level cs
  | '-' :: c :: cs => r.flipAll level (c :: cs)
  | _ => r.plain level arg

/-- The arguments of a command. -/
def readCommandArguments (level : ArgumentLevel) (r : Readings) :
    List String → Except Stop Readings
  | [] => r.settle
  | arg :: args =>
    if arg = "--" then r.trailing level args
    else
      match readArgument level r arg with
      | .ok r => readCommandArguments level r args
      | .error stop => .error stop

def parseOptions (r : Readings) : Except Stop ParseOptions :=
  match r.paths with
  | [file] => .ok ⟨r.symbol.getD .default, r.format.getD .debug, file⟩
  | _ => .error .usage

def checkOptions (r : Readings) : Except Stop CheckOptions :=
  if r.paths.isEmpty then .error .usage
  else .ok ⟨r.extensions.getD ["graphql", "gql"], r.paths⟩

/-- Help on a command, on help itself, or on all. -/
def readHelpArguments : List String → Stop
  | [] => .help
  | [name] => if name ∈ ["parse", "check", "help"] then .help else .usage
  | _ => .usage

/-- Inputs larger than this are refused, unless the arguments say otherwise. -/
def defaultMaxInputBytes : Nat := 1024 * 1024

/-- An invocation from what was read before the command and after it. What stands after it wins. -/
def invocation (root command : Readings) (c : Option Command) : Invocation :=
  ⟨(command.maxInputBytes.or root.maxInputBytes).getD defaultMaxInputBytes,
    root.verbose || command.verbose, c⟩

/-- Reads the arguments of a command, and then what is still unread before it. -/
def readCommand (level : ArgumentLevel) (options : Readings → Except Stop Command)
    (root : Readings) (args : List String) : Except Stop Invocation := do
  let command ← readCommandArguments level {} args
  let c ← options command
  let root ← root.settle
  return invocation root command (some c)

def readRootArguments (r : Readings) : List String → Except Stop Invocation
  | [] => r.settle.map fun r => invocation r {} none
  | arg :: args =>
    if r.waiting.isNone ∧ arg = "parse" then
      readCommand .parse (fun r => .parse <$> parseOptions r) r args
    else if r.waiting.isNone ∧ arg = "check" then
      readCommand .check (fun r => .check <$> checkOptions r) r args
    else if r.waiting.isNone ∧ arg = "help" then .error (readHelpArguments args)
    else if arg = "--" then (r.trailing .root args).map fun r => invocation r {} none
    else
      match readArgument .root r arg with
      | .ok r => readRootArguments r args
      | .error stop => .error stop

def readArguments (args : List String) : Except Stop Invocation :=
  readRootArguments {} args

end GraphQLSyntax
