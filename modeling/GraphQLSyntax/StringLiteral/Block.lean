import GraphQLSyntax.Source.Lines
import GraphQLSyntax.StringLiteral.Fault
import GraphQLSyntax.Text.Space

/-!
# Block string literals

A block string stands between triple quotes. Its value drops the indentation that its lines share and
the blank lines at both ends. The first line starts after the quotes, so it has no indentation to share.
-/

set_option autoImplicit false

namespace GraphQLSyntax

def tripleQuote : List Char :=
  ['"', '"', '"']

/-- Replaces each triple quote that a backslash stands before by a plain one. -/
def unescapeTripleQuotes : List Char → List Char
  | [] => []
  | '\\' :: '"' :: '"' :: '"' :: cs => '"' :: '"' :: '"' :: unescapeTripleQuotes cs
  | c :: cs => c :: unescapeTripleQuotes cs

def isBlankLine (line : List Char) : Bool :=
  line.all isBlankChar

/-- The least indentation of the lines after the first that are not blank. -/
def commonIndent (lines : List (List Char)) : Nat :=
  ((((lines.drop 1).filter fun line => !isBlankLine line).map blankRun).min?).getD 0

def dedentLine (indent : Nat) (line : List Char) (index : Nat) : List Char :=
  if index = 0 then line else line.drop indent

/-- The lines from the first to the last one that is not blank, without the indentation they share. -/
def dedent (lines : List (List Char)) : List Char :=
  match lines.findIdx? fun line => !isBlankLine line with
  | none => []
  | some first =>
    let indent := commonIndent lines
    let stop := lines.length - lines.reverse.findIdx fun line => !isBlankLine line
    let kept := (lines.zipIdx.take stop).drop first
    ['\n'].intercalate (kept.map fun (line, index) => dedentLine indent line index)

/-- What stands between the triple quotes of a literal. -/
def blockContent? : List Char → Option (List Char)
  | '"' :: '"' :: '"' :: cs =>
    if cs.drop (cs.length - 3) = tripleQuote then some (cs.take (cs.length - 3)) else none
  | _ => none

def decodeBlock (raw : List Char) : Except StringFault (List Char) :=
  match blockContent? raw with
  | none => .error .unterminated
  | some content => .ok (dedent (splitLines (unescapeTripleQuotes content)))

end GraphQLSyntax
