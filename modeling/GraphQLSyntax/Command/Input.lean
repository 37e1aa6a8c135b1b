import GraphQLSyntax.Command.FileTree
import GraphQLSyntax.Text.Escaped
import GraphQLSyntax.Text.Utf8

/-!
# Reading inputs

An input is the text of a file, or of the standard input. It has to be UTF-8 and not too large.
-/

set_option autoImplicit false

namespace GraphQLSyntax

/-- What a run can see of the world. -/
structure Environment where
  files : Path → FileView
  standardInput : List UInt8
  logLevel : Option String

inductive InputFault where
  | unread (fault : ReadFault)
  | tooLarge (maxBytes : Nat)
  | notText (fault : Utf8Fault)
  deriving DecidableEq, Repr

def InputFault.message (path : Path) : InputFault → String
  | unread (.notOpened reason) => "Failed to open " ++ path.escaped ++ ": " ++ reason
  | unread (.notRead reason) => "Failed to read " ++ path.escaped ++ ": " ++ reason
  | tooLarge maxBytes =>
    path.escaped ++ " is larger than the maximum input size of " ++ toString maxBytes ++
      " bytes (see `--max-input-bytes`)"
  | notText fault => path.escaped ++ " is not valid UTF-8: " ++ fault.message

/-- A dash stands for the standard input. -/
def Path.isStandardInput (p : Path) : Bool :=
  p.same ⟨"-"⟩

def inputText (maxBytes : Nat) (bytes : List UInt8) : Except InputFault String :=
  if maxBytes < bytes.length then .error (.tooLarge maxBytes)
  else
    match decodeUtf8 bytes with
    | .ok text => .ok text
    | .error fault => .error (.notText fault)

namespace Environment

def inputBytes (env : Environment) (path : Path) : Except InputFault (List UInt8) :=
  if path.isStandardInput then .ok env.standardInput
  else (env.files path).content.mapError .unread

def inputText (env : Environment) (maxBytes : Nat) (path : Path) : Except InputFault String :=
  (env.inputBytes path).bind (GraphQLSyntax.inputText maxBytes)

end Environment

end GraphQLSyntax
