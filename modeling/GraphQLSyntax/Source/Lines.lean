/-!
# Lines of a text

A line feed, a carriage return, and a carriage return with a line feed after it each end one line.
-/

set_option autoImplicit false

namespace GraphQLSyntax

def isLineTerminator (c : Char) : Bool :=
  c = '\n' || c = '\r'

/-- The lines of a text without their terminators. The last one may be empty. -/
def splitLines : List Char → List (List Char)
  | [] => [[]]
  | '\r' :: '\n' :: cs => [] :: splitLines cs
  | c :: cs =>
    if isLineTerminator c then
      [] :: splitLines cs
    else
      match splitLines cs with
      | [] => [[c]]
      | line :: lines => (c :: line) :: lines

/-- What follows the first line terminator. -/
def afterLine? : List Char → Option (List Char)
  | [] => none
  | '\r' :: '\n' :: cs => some cs
  | c :: cs => if isLineTerminator c then some cs else afterLine? cs

/-- The line with the given number, counted from zero. -/
def line? (text : List Char) : Nat → Option (List Char)
  | 0 => some (text.takeWhile fun c => !isLineTerminator c)
  | n + 1 =>
    match afterLine? text with
    | none => none
    | some rest => line? rest n

end GraphQLSyntax
