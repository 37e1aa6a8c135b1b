import GraphQLSyntax.Source.Span

/-!
# Notes of an error

A note adds context to an error, suggests a remedy, or names the section of the specification that
rules. One that points at a place of the text is shown with it.
-/

set_option autoImplicit false

namespace GraphQLSyntax

inductive NoteKind where
  | general
  | help
  | spec
  deriving DecidableEq, Repr

def NoteKind.label : NoteKind → String
  | .general => "note"
  | .help => "help"
  | .spec => "spec"

structure Note where
  kind : NoteKind
  message : String
  span : Option Span
  deriving DecidableEq, Repr

namespace Note

def general (message : String) : Note := ⟨.general, message, none⟩

def generalAt (message : String) (span : Span) : Note := ⟨.general, message, some span⟩

def help (message : String) : Note := ⟨.help, message, none⟩

def spec (url : String) : Note := ⟨.spec, url, none⟩

/-- Equal notes, with spans compared as spans are. -/
def same (a b : Note) : Bool :=
  a.kind == b.kind && a.message == b.message &&
    match a.span, b.span with
    | none, none => true
    | some s, some t => s.same t
    | _, _ => false

end Note

end GraphQLSyntax
