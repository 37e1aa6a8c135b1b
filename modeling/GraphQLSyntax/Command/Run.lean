import GraphQLSyntax.Command.CheckFiles
import GraphQLSyntax.Command.ParseInput

/-!
# Running a command line
-/

set_option autoImplicit false

namespace GraphQLSyntax

inductive Outcome where
  | report (r : Report)
  | help (records : List LogRecord)
  | version
  | usageError

def versionText : String := "coke 0.1.0"

def runCommand (env : Environment) (maxBytes : Nat) : Command → Report
  | .parse options => runParse env maxBytes options
  | .check options => runCheck env maxBytes options

def runInvocation (env : Environment) (i : Invocation) : Outcome :=
  let (level, warnings) := resolveLogLevel i.verbose env.logLevel
  let start := startRecords level warnings
  match i.command with
  | none => .help (enabledRecords level start)
  | some c =>
    let r := runCommand env i.maxInputBytes c
    .report { r with records := enabledRecords level (start ++ r.records) }

/-- The outcome of a command line. Nothing is logged before its arguments are understood. -/
def runArguments (env : Environment) (args : List String) : Outcome :=
  match readArguments args with
  | .ok i => runInvocation env i
  | .error .help => .help []
  | .error .version => .version
  | .error .usage => .usageError

end GraphQLSyntax
