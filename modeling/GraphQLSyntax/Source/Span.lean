import GraphQLSyntax.Source.Path
import GraphQLSyntax.Source.Position

/-!
# Spans of a text

A span runs from its start up to, and not including, its stop. It may name the file of the text.
-/

set_option autoImplicit false

namespace GraphQLSyntax

structure Span where
  start : Position
  stop : Position
  file : Option Path := none
  deriving DecidableEq, Repr

namespace Span

/-- The empty span at a position, in no named file. -/
def emptyAt (p : Position) : Span := ⟨p, p, none⟩

/-- From the start of one span to the stop of another, in the first one's file. -/
def join (first last : Span) : Span :=
  ⟨first.start, last.stop, first.file⟩

/-- Equal positions, in files that have the same path. -/
def same (a b : Span) : Bool :=
  a.start == b.start && a.stop == b.stop &&
    match a.file, b.file with
    | none, none => true
    | some p, some q => p.same q
    | _, _ => false

def place (s : Span) : Place := s.start.place

end Span

end GraphQLSyntax
