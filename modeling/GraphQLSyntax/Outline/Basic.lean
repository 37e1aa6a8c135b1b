import GraphQLSyntax.Construct

/-!
# Outlines

An outline is a node seen as nested records, variants and lists. All ways to show a node in full start
from it, and so does the comparison of nodes.
-/

set_option autoImplicit false

namespace GraphQLSyntax

mutual

inductive Outline where
  | record (name : String) (fields : List OutlineField)
  | variant (name : String) (content : Outline)
  /-- A variant without content. -/
  | tag (name : String)
  | list (items : List Outline)
  | absent
  | present (o : Outline)
  | text (s : String)
  | flag (b : Bool)
  | integer (n : Int)
  | float (x : Binary64)
  | span (s : Span)

structure OutlineField where
  label : String
  content : Outline

end

namespace Outline

def ofOption (o : Option Outline) : Outline :=
  match o with
  | none => absent
  | some o => present o

mutual

/-- Equal outlines, with numbers compared by value and spans as spans are. -/
def same : Outline → Outline → Bool
  | record m fs, record n gs => m == n && sameFields fs gs
  | variant m o, variant n p => m == n && o.same p
  | tag m, tag n => m == n
  | list os, list ps => sameItems os ps
  | absent, absent => true
  | present o, present p => o.same p
  | text s, text t => s == t
  | flag a, flag b => a == b
  | integer m, integer n => m == n
  | float x, float y => x.same y
  | span s, span t => s.same t
  | _, _ => false

def sameItems : List Outline → List Outline → Bool
  | [], [] => true
  | o :: os, p :: ps => o.same p && sameItems os ps
  | _, _ => false

def sameFields : List OutlineField → List OutlineField → Bool
  | [], [] => true
  | ⟨l, o⟩ :: fs, ⟨m, p⟩ :: gs => l == m && o.same p && sameFields fs gs
  | _, _ => false

end

end Outline

end GraphQLSyntax
