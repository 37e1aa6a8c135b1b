import GraphQLSyntax.Text.Split

/-!
# File paths

A path keeps the text it was written with, which is Unicode text: names of other bytes, which some systems
allow, are left out. Two paths are the same, and are ordered, by their components: repeated and trailing
slashes and inner dots do not count.
-/

set_option autoImplicit false

namespace GraphQLSyntax

inductive PathComponent where
  | root
  | current
  | parent
  | normal (name : String)
  deriving DecidableEq, Repr

namespace PathComponent

def rank : PathComponent → Nat
  | root => 0
  | current => 1
  | parent => 2
  | normal _ => 3

def order : PathComponent → PathComponent → Ordering
  | normal a, normal b => compare a b
  | a, b => compare a.rank b.rank

end PathComponent

structure Path where
  text : String
  deriving DecidableEq, Repr

namespace Path

/-- The components after the first piece: empty pieces and dots are passed over. -/
def innerComponents : List (List Char) → List PathComponent
  | [] => []
  | piece :: pieces =>
    if piece = [] ∨ piece = ['.'] then innerComponents pieces
    else if piece = ['.', '.'] then .parent :: innerComponents pieces
    else .normal (String.ofList piece) :: innerComponents pieces

/-- A leading slash is the root and a leading dot stays. -/
def components (p : Path) : List PathComponent :=
  match splitAtChar '/' p.text.toList with
  | [] => []
  | [] :: pieces => if p.text = "" then [] else .root :: innerComponents pieces
  | ['.'] :: pieces => .current :: innerComponents pieces
  | piece :: pieces => innerComponents (piece :: pieces)

def same (p q : Path) : Bool :=
  p.components == q.components

def orderComponents : List PathComponent → List PathComponent → Ordering
  | [], [] => .eq
  | [], _ :: _ => .lt
  | _ :: _, [] => .gt
  | a :: as, b :: bs => (a.order b).then (orderComponents as bs)

def order (p q : Path) : Ordering :=
  orderComponents p.components q.components

/-- Appends a name, with a slash where none ends the path. -/
def child (p : Path) (name : String) : Path :=
  if p.text.toList.getLast? = some '/' then ⟨p.text ++ name⟩ else ⟨p.text ++ "/" ++ name⟩

def fileName? (p : Path) : Option String :=
  match p.components.getLast? with
  | some (.normal name) => some name
  | _ => none

/-- What follows the last dot of the file name. A name that only starts with a dot has none. -/
def extension? (p : Path) : Option String :=
  match p.fileName? with
  | none => none
  | some name =>
    let pieces := splitAtChar '.' name.toList
    match pieces with
    | [] | [_] | [[], _] => none
    | _ => (pieces.getLast?).map String.ofList

end Path

end GraphQLSyntax
