import GraphQLSyntax.StringLiteral.Escape
import GraphQLSyntax.StringLiteral.Fault

/-!
# Quoted string literals

Writing escapes what a literal cannot hold, or what would end it. Reading replaces every escape by the
character it stands for, and also accepts escapes that writing does not need.
-/

set_option autoImplicit false

namespace GraphQLSyntax

/-- The text of a `\u` escape up to the character that spoils it. A surrogate is spoilt by its last digit. -/
def faultyUnicodeEscape (cs : List Char) : String :=
  String.ofList (['\\', 'u'] ++ cs.take (min 4 ((unicodeDigits cs).length + 1)))

/-- The text that a literal's content stands for. -/
def decodeEscapes : List Char → Except StringFault (List Char)
  | [] => .ok []
  | '\\' :: 'u' :: a :: b :: c :: d :: cs =>
    match escapedScalar? a b c d with
    | some x => (decodeEscapes cs).map (x :: ·)
    | none => .error (.invalidUnicodeEscape (faultyUnicodeEscape [a, b, c, d]))
  | '\\' :: 'u' :: cs => .error (.invalidUnicodeEscape (faultyUnicodeEscape cs))
  | '\\' :: c :: cs =>
    match namedEscape? c with
    | some x => (decodeEscapes cs).map (x :: ·)
    | none => .error (.invalidEscape (String.ofList ['\\', c]))
  | ['\\'] => .error (.invalidEscape (String.ofList ['\\']))
  | c :: cs => (decodeEscapes cs).map (c :: ·)

/-- What stands between the quotes of a literal. -/
def quotedContent? : List Char → Option (List Char)
  | '"' :: cs => if cs.getLast? = some '"' then some cs.dropLast else none
  | _ => none

def decodeQuoted (raw : List Char) : Except StringFault (List Char) :=
  match quotedContent? raw with
  | none => .error .unterminated
  | some content => if '\\' ∈ content then decodeEscapes content else .ok content

/-- Whether a character is written by its code point: control characters without a letter of their
own, and the byte order mark. -/
def needsCodePoint (c : Char) : Bool :=
  c.toNat < 0x20 || c.toNat = 0xFEFF

def encodeChar (c : Char) : List Char :=
  match c with
  | '"' => ['\\', '"']
  | '\\' => ['\\', '\\']
  | '\x08' => ['\\', 'b']
  | '\x0c' => ['\\', 'f']
  | '\n' => ['\\', 'n']
  | '\r' => ['\\', 'r']
  | '\t' => ['\\', 't']
  | _ => if needsCodePoint c then ['\\', 'u'] ++ upperHex 4 c.toNat else [c]

def encodeQuoted (value : List Char) : List Char :=
  ['"'] ++ value.flatMap encodeChar ++ ['"']

end GraphQLSyntax
