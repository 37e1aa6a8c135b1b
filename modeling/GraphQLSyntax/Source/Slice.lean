import GraphQLSyntax.Source.Span

/-!
# Slices of a text by byte offsets

Offsets that fall inside a character, or beyond the text, cut nothing.
-/

set_option autoImplicit false

namespace GraphQLSyntax

def dropBytes? : Nat → List Char → Option (List Char)
  | 0, cs => some cs
  | _ + 1, [] => none
  | n + 1, c :: cs => if c.utf8Size ≤ n + 1 then dropBytes? (n + 1 - c.utf8Size) cs else none

def takeBytes? : Nat → List Char → Option (List Char)
  | 0, _ => some []
  | _ + 1, [] => none
  | n + 1, c :: cs =>
    if c.utf8Size ≤ n + 1 then (takeBytes? (n + 1 - c.utf8Size) cs).map (c :: ·) else none

def Span.slice? (s : Span) (text : String) : Option String :=
  if s.start.offset ≤ s.stop.offset then
    match dropBytes? s.start.offset text.toList with
    | none => none
    | some rest => (takeBytes? (s.stop.offset - s.start.offset) rest).map String.ofList
  else none

end GraphQLSyntax
