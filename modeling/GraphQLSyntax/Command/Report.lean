import GraphQLSyntax.Command.Log

/-!
# Reports of a command
-/

set_option autoImplicit false

namespace GraphQLSyntax

/-- What a command writes, and how the program ends. Texts are written as lines of their own. -/
structure Report where
  exitCode : Nat
  standardOutput : Option String
  standardError : Option String
  records : List LogRecord
  deriving DecidableEq, Repr

def crossMark : String := "\u274C"

def checkMark : String := "\u2705"

def writtenLine : Option String → String
  | none => ""
  | some text => text ++ "\n"

/-- What the error stream receives apart from the first lines of records, which come before the report. -/
def writtenErrors (records : List LogRecord) (text : Option String) : String :=
  String.join (records.map LogRecord.furtherLines) ++ writtenLine text

end GraphQLSyntax
