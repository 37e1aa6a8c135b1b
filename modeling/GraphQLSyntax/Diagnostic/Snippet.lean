import GraphQLSyntax.Diagnostic.ParseError
import GraphQLSyntax.Source.Lines
import GraphQLSyntax.Text.Layout

/-!
# Showing an error with the text it is about

An error is shown on one line, or in detail with the line of text under its span and under the span of
each note. Padding has a largest width, and an error that needs more cannot be shown in detail.
-/

set_option autoImplicit false

namespace GraphQLSyntax

/-- The largest width that a line can be padded to. -/
def maxPadding : Nat := 65535

def padding? (n : Nat) : Option String :=
  if n ≤ maxPadding then some (spaces n) else none

def padLeft (width : Nat) (s : String) : String :=
  spaces (width - s.length) ++ s

/-- The width of the column of line numbers. -/
def gutterWidth (number : String) : Nat :=
  max number.length 2

namespace Span

/-- How many carets stand under a line. A span that goes on after the line is underlined to its end. -/
def caretCount (s : Span) (line : List Char) : Nat :=
  let stop := if s.stop.line = s.start.line then s.stop.column else line.length
  max (stop - s.start.column) 1

end Span

/-- The snippet of an error's span, if the text has that line. Fails where padding is too wide. -/
def errorSnippet? (source : String) (s : Span) : Option String :=
  match line? source.toList s.start.line with
  | none => some ""
  | some line =>
    let number := toString (s.start.line + 1)
    let gutter := spaces (gutterWidth number)
    (padding? s.start.column).map fun pad =>
      gutter ++ " |\n" ++
      padLeft (gutterWidth number) number ++ " | " ++ String.ofList line ++ "\n" ++
      gutter ++ " | " ++ pad ++ String.ofList (List.replicate (s.caretCount line) '^') ++ "\n"

def noteSnippet? (source : String) (s : Span) : Option String :=
  match line? source.toList s.start.line with
  | none => some ""
  | some line =>
    let number := toString (s.start.line + 1)
    (padding? s.start.column).map fun pad =>
      "     " ++ padLeft (gutterWidth number) number ++ " | " ++ String.ofList line ++ "\n" ++
      "     " ++ spaces (gutterWidth number) ++ " | " ++ pad ++ "-\n"

/-- A note with its snippet, if there is a text to take it from. -/
def Note.detailed? (n : Note) (source : Option String) : Option String :=
  let head := "   = " ++ n.kind.label ++ ": " ++ n.message ++ "\n"
  match n.span, source with
  | some s, some text => (noteSnippet? text s).map (head ++ ·)
  | _, _ => some head

namespace ParseError

def location (e : ParseError) : String :=
  let file :=
    match e.span.file with
    | some path => path.text
    | none => "<input>"
  file ++ ":" ++ e.place.label

def oneline (e : ParseError) : String :=
  e.location ++ ": error: " ++ e.message

/-- The message, the place, the snippet and the notes. Absent where padding is too wide. -/
def detailed? (e : ParseError) (source : Option String) : Option String :=
  let head := "error: " ++ e.message ++ "\n  --> " ++ e.location ++ "\n"
  let snippet :=
    match source with
    | some text => errorSnippet? text e.span
    | none => some ""
  let notes := e.notes.mapM fun n => n.detailed? source
  match snippet, notes with
  | some snippet, some notes => some (head ++ snippet ++ String.join notes)
  | _, _ => none

end ParseError

end GraphQLSyntax
