import GraphQLSyntax.Diagnostic.Note
import GraphQLSyntax.Grammar.Keyword
import GraphQLSyntax.StringLiteral.Fault

/-!
# Errors of a parse

An error has a message for people, a kind for programs, the span it is about, and notes.
-/

set_option autoImplicit false

namespace GraphQLSyntax

/-- Why a literal has no value. -/
inductive ValueFault where
  | string (fault : StringFault)
  | int (raw : String)
  | float (raw : String)
  deriving DecidableEq, Repr

def ValueFault.message : ValueFault → String
  | .string fault => "Invalid GraphQL string: " ++ fault.message
  | .int raw => "Invalid GraphQL integer: " ++ raw
  | .float raw => "Invalid GraphQL float: " ++ raw

/-- Where a word that is a name otherwise is none. -/
inductive ReservedContext where
  | fragmentName
  | namedType
  deriving DecidableEq, Repr

inductive ErrorKind where
  | unexpectedToken (expected : List String) (found : String)
  | unexpectedEnd (expected : List String)
  | lexical
  | unclosedDelimiter (delimiter : String)
  | invalidValue (fault : ValueFault)
  | reservedName (name : String) (context : ReservedContext)
  | wrongDocumentKind (found : DefinitionKind)
  | emptyConstruct (construct : String)
  | invalidSyntax
  deriving DecidableEq, Repr

def ErrorKind.message : ErrorKind → String
  | .unexpectedToken _ found => "unexpected token: `" ++ found ++ "`"
  | .unexpectedEnd _ => "unexpected end of input"
  | .lexical => "lexer error"
  | .unclosedDelimiter delimiter => "unclosed delimiter: `" ++ delimiter ++ "`"
  | .invalidValue _ => "invalid value"
  | .reservedName name _ => "reserved name: `" ++ name ++ "`"
  | .wrongDocumentKind _ => "wrong document kind"
  | .emptyConstruct construct => "invalid empty construct: `" ++ construct ++ "`"
  | .invalidSyntax => "invalid syntax"

structure ParseError where
  message : String
  span : Span
  kind : ErrorKind
  notes : List Note := []
  deriving DecidableEq, Repr

namespace ParseError

def place (e : ParseError) : Place := e.span.place

def addNote (e : ParseError) (note : Note) : ParseError :=
  { e with notes := e.notes ++ [note] }

def sameNotes : List Note → List Note → Bool
  | [], [] => true
  | a :: as, b :: bs => a.same b && sameNotes as bs
  | _, _ => false

/-- Equal errors, with spans compared as spans are. -/
def same (a b : ParseError) : Bool :=
  a.message == b.message && a.span.same b.span && a.kind == b.kind && sameNotes a.notes b.notes

end ParseError

end GraphQLSyntax
