import GraphQLSyntax.Number.FloatText
import GraphQLSyntax.Outline.Basic
import GraphQLSyntax.Text.JsonString
import GraphQLSyntax.Text.Layout

/-!
# Outlines as JSON

A record is an object of its fields, and a variant an object with its name as the only key. The name of a
record is not shown, and neither is the file of a span that names none.
-/

set_option autoImplicit false

namespace GraphQLSyntax

def jsonStyle : LayoutStyle := ⟨2, false⟩

def jsonEntry (label value : String) : String :=
  jsonString label ++ ": " ++ value

def jsonObject (depth : Nat) (entries : List String) : String :=
  jsonStyle.block depth "\x7b" "\x7d" entries

def Position.json (depth : Nat) (p : Position) : String :=
  let column16 :=
    match p.column16 with
    | some n => toString n
    | none => "null"
  jsonObject depth
    [jsonEntry "line" (toString p.line), jsonEntry "col_utf8" (toString p.column),
      jsonEntry "col_utf16" column16, jsonEntry "byte_offset" (toString p.offset)]

def Span.json (depth : Nat) (s : Span) : String :=
  let file :=
    match s.file with
    | some p => [jsonEntry "file_path" (jsonString p.text)]
    | none => []
  jsonObject depth
    ([jsonEntry "start_inclusive" (s.start.json (depth + 1)),
      jsonEntry "end_exclusive" (s.stop.json (depth + 1))] ++ file)

namespace Outline

mutual

def json (depth : Nat) : Outline → String
  | record _ fields => jsonObject depth (jsonFields (depth + 1) fields)
  | variant name o => jsonObject depth [jsonEntry name (o.json (depth + 1))]
  | tag name => jsonString name
  | list items => jsonStyle.block depth "[" "]" (jsonItems (depth + 1) items)
  | absent => "null"
  | present o => o.json depth
  | text s => jsonString s
  | flag b => if b then "true" else "false"
  | integer n => toString n
  | float x => FloatForm.json.write x
  | span s => s.json depth

def jsonItems (depth : Nat) : List Outline → List String
  | [] => []
  | o :: os => o.json depth :: jsonItems depth os

def jsonFields (depth : Nat) : List OutlineField → List String
  | [] => []
  | ⟨label, o⟩ :: fs => jsonEntry label (o.json depth) :: jsonFields depth fs

end

end Outline

end GraphQLSyntax
