import GraphQLSyntax.Command.Arguments
import GraphQLSyntax.Command.Input
import GraphQLSyntax.Command.Report
import GraphQLSyntax.Diagnostic.Snippet
import GraphQLSyntax.Outline.Indented
import GraphQLSyntax.Outline.Json
import GraphQLSyntax.Outline.Node
import GraphQLSyntax.Parse

/-!
# Parsing one input and showing the result
-/

set_option autoImplicit false

namespace GraphQLSyntax

def OutputFormat.render (c : Construct) : OutputFormat → String
  | debug => c.outline.indented 0
  | json => c.outline.json 0
  | graphql => c.text

/-- The exit code of a run that breaks down because a line cannot be padded. -/
def brokenExitCode : Nat := 101

def parseReport (options : ParseOptions) (source : String) : Report :=
  let records : List LogRecord :=
    [⟨.debug, .parse, "Parsing " ++ toString source.utf8ByteSize ++ " bytes from " ++
      options.file.escaped ++ " as `" ++ options.symbol.text ++ "`..."⟩]
  let file := if options.file.isStandardInput then none else some options.file
  match parse file source options.symbol with
  | .ok c => ⟨0, some (options.format.render c), none, records⟩
  | .error e =>
    match e.detailed? (some source) with
    | some text => ⟨1, none, some text, records⟩
    | none => ⟨brokenExitCode, none, none, records⟩

def runParse (env : Environment) (maxBytes : Nat) (options : ParseOptions) : Report :=
  match env.inputText maxBytes options.file with
  | .ok source => parseReport options source
  | .error fault => ⟨1, none, some (crossMark ++ " " ++ fault.message options.file), []⟩

end GraphQLSyntax
