import GraphQLSyntax.Source.Path
import GraphQLSyntax.Text.GraphemeExtend
import GraphQLSyntax.Text.Hex
import GraphQLSyntax.Text.Unprintable

/-!
# Text with every character visible

A text is shown between double quotes. Characters that would be invisible, or would join the quote
before them, are shown by their code point.
-/

set_option autoImplicit false

namespace GraphQLSyntax

/-- A code point in braces after `\u`. -/
def codePointEscape (c : Char) : List Char :=
  ['\\', 'u', '\x7b'] ++ lowerHex c.toNat ++ ['\x7d']

/-- The halfwidth sound marks extend the character before them and yet have a width of their own. -/
def isHalfwidthSoundMark (c : Char) : Bool :=
  c.toNat = 0xFF9E || c.toNat = 0xFF9F

/-- Whether a character would be lost to a reader, or taken for a part of the one before it. -/
def isHidden (c : Char) : Bool :=
  (isGraphemeExtend c && !isHalfwidthSoundMark c) || isUnprintable c

def escapedChar (c : Char) : List Char :=
  match c with
  | '\x00' => ['\\', '0']
  | '\t' => ['\\', 't']
  | '\r' => ['\\', 'r']
  | '\n' => ['\\', 'n']
  | '\\' => ['\\', '\\']
  | '"' => ['\\', '"']
  | _ =>
    if 0x20 ≤ c.toNat && c.toNat < 0x7F then [c]
    else if isHidden c then codePointEscape c
    else [c]

def escapedText (s : String) : String :=
  String.ofList (['"'] ++ s.toList.flatMap escapedChar ++ ['"'])

def Path.escaped (p : Path) : String :=
  escapedText p.text

end GraphQLSyntax
