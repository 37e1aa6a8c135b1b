import GraphQLSyntax.Diagnostic.Note

/-!
# Tokens

A token is a punctuator, a word, a literal, the end of the input, or an error in the text. Literals
keep the text they were written with, quotes included.
-/

set_option autoImplicit false

namespace GraphQLSyntax

inductive Punctuator where
  | bang
  | dollar
  | parenOpen
  | parenClose
  | ellipsis
  | colon
  | equals
  | atSign
  | bracketOpen
  | bracketClose
  | braceOpen
  | braceClose
  deriving DecidableEq, Repr

namespace Punctuator

def text : Punctuator → String
  | bang => "!"
  | dollar => "$"
  | parenOpen => "("
  | parenClose => ")"
  | ellipsis => "..."
  | colon => ":"
  | equals => "="
  | atSign => "@"
  | bracketOpen => "["
  | bracketClose => "]"
  | braceOpen => "\x7b"
  | braceClose => "\x7d"

def all : List Punctuator :=
  [bang, dollar, parenOpen, parenClose, ellipsis, colon, equals, atSign, bracketOpen, bracketClose,
    braceOpen, braceClose]

def ofChar? (c : Char) : Option Punctuator :=
  all.find? fun p => p.text.toList == [c]

end Punctuator

inductive TokenKind where
  | punctuator (p : Punctuator)
  | name (text : String)
  | int (raw : String)
  | float (raw : String)
  | string (raw : String)
  | boolean (value : Bool)
  | null
  | endOfInput
  | error (message : String) (notes : List Note)
  deriving DecidableEq, Repr

namespace TokenKind

def isPunctuator : TokenKind → Bool
  | punctuator _ => true
  | _ => false

/-- Whether a token alone is a value that is not a name. -/
def isLiteral : TokenKind → Bool
  | int _ | float _ | string _ | boolean _ | null => true
  | _ => false

def isError : TokenKind → Bool
  | error _ _ => true
  | _ => false

def booleanWord (value : Bool) : String :=
  if value then "true" else "false"

/-- The text of a token that can serve as a name. The words for booleans and null can. -/
def nameText? : TokenKind → Option String
  | name text => some text
  | boolean value => some (booleanWord value)
  | null => some "null"
  | _ => none

end TokenKind

structure Token where
  kind : TokenKind
  span : Span
  deriving DecidableEq, Repr

end GraphQLSyntax
