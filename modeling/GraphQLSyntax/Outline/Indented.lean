import GraphQLSyntax.Number.FloatText
import GraphQLSyntax.Outline.Basic
import GraphQLSyntax.Text.Escaped
import GraphQLSyntax.Text.Layout

/-!
# Outlines as indented text

Records and variants are shown with their names, one field on a line, and every line ends in a comma.
-/

set_option autoImplicit false

namespace GraphQLSyntax

def indentedStyle : LayoutStyle := ⟨4, true⟩

def indentedRecord (depth : Nat) (name : String) (fields : List String) : String :=
  indentedStyle.block depth (name ++ " \x7b") "\x7d" fields

def indentedVariant (depth : Nat) (name content : String) : String :=
  indentedStyle.block depth (name ++ "(") ")" [content]

/-- A value that may be absent, given how it is shown at a depth. -/
def indentedOption {α : Type} (depth : Nat) (render : Nat → α → String) : Option α → String
  | none => "None"
  | some a => indentedVariant depth "Some" (render (depth + 1) a)

def Position.indented (depth : Nat) (p : Position) : String :=
  indentedRecord depth "SourcePosition"
    ["line: " ++ toString p.line, "col_utf8: " ++ toString p.column,
      "col_utf16: " ++ indentedOption (depth + 1) (fun _ n => toString n) p.column16,
      "byte_offset: " ++ toString p.offset]

def Span.indented (depth : Nat) (s : Span) : String :=
  indentedRecord depth "GraphQLSourceSpan"
    ["start_inclusive: " ++ s.start.indented (depth + 1),
      "end_exclusive: " ++ s.stop.indented (depth + 1),
      "file_path: " ++ indentedOption (depth + 1) (fun _ p => Path.escaped p) s.file]

namespace Outline

mutual

def indented (depth : Nat) : Outline → String
  | record name fields => indentedRecord depth name (indentedFields (depth + 1) fields)
  | variant name o => indentedVariant depth name (o.indented (depth + 1))
  | tag name => name
  | list items => indentedStyle.block depth "[" "]" (indentedItems (depth + 1) items)
  | absent => "None"
  | present o => indentedVariant depth "Some" (o.indented (depth + 1))
  | text s => escapedText s
  | flag b => if b then "true" else "false"
  | integer n => toString n
  | float x => FloatForm.canonical.write x
  | span s => s.indented depth

def indentedItems (depth : Nat) : List Outline → List String
  | [] => []
  | o :: os => o.indented depth :: indentedItems depth os

def indentedFields (depth : Nat) : List OutlineField → List String
  | [] => []
  | ⟨label, o⟩ :: fs => (label ++ ": " ++ o.indented depth) :: indentedFields depth fs

end

end Outline

end GraphQLSyntax
