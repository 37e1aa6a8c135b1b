import GraphQLSyntax.Diagnostic.Note
import GraphQLSyntax.Text.Escaped
import GraphQLSyntax.Text.Space

/-!
# Faults of a text

A fault is the reason why a text is not made of tokens at some place. Its message and its notes say
what is wrong and how to mend it.
-/

set_option autoImplicit false

namespace GraphQLSyntax

/-- The names of invisible characters that come into documents by mistake. -/
def invisibleName? (c : Char) : Option String :=
  let n := c.toNat
  if n = 0 then some "NULL"
  else if n = 7 then some "BELL"
  else if n = 8 then some "BACKSPACE"
  else if n = 9 then some "HORIZONTAL TAB"
  else if n = 0xA then some "LINE FEED"
  else if n = 0xB then some "VERTICAL TAB"
  else if n = 0xC then some "FORM FEED"
  else if n = 0xD then some "CARRIAGE RETURN"
  else if n = 0x1B then some "ESCAPE"
  else if n = 0x7F then some "DELETE"
  else if n = 0x85 then some "NEXT LINE"
  else if n = 0xA0 then some "NO-BREAK SPACE"
  else if n = 0xAD then some "SOFT HYPHEN"
  else if 0x2000 ≤ n ∧ n ≤ 0x200A then some "TYPOGRAPHIC SPACE"
  else if n = 0x200B then some "ZERO WIDTH SPACE"
  else if n = 0x200C then some "ZERO WIDTH NON-JOINER"
  else if n = 0x200D then some "ZERO WIDTH JOINER"
  else if n = 0x200E then some "LEFT-TO-RIGHT MARK"
  else if n = 0x200F then some "RIGHT-TO-LEFT MARK"
  else if n = 0x2028 then some "LINE SEPARATOR"
  else if n = 0x2029 then some "PARAGRAPH SEPARATOR"
  else if 0x202A ≤ n ∧ n ≤ 0x202E then some "BIDIRECTIONAL FORMATTING"
  else if n = 0x202F then some "NARROW NO-BREAK SPACE"
  else if n = 0x2060 then some "WORD JOINER"
  else if n = 0x3000 then some "IDEOGRAPHIC SPACE"
  else if n = 0xFEFF then some "BYTE ORDER MARK"
  else if n = 0xFFFE ∨ n = 0xFFFF then some "NONCHARACTER"
  else none

/-- A character between backticks. An invisible one is escaped, with its code point and its name, if it
has one, after it. -/
def describeChar (c : Char) : String :=
  let escaped := "`" ++ String.ofList (escapedChar c) ++ "`"
  let codePoint := "U+" ++ String.ofList (upperHex 4 c.toNat)
  match invisibleName? c with
  | some name => escaped ++ " (" ++ codePoint ++ ": " ++ name ++ ")"
  | none =>
    if isControl c || (isWhiteSpace c && c != ' ') then escaped ++ " (" ++ codePoint ++ ")"
    else "`" ++ c.toString ++ "`"

/-- Where the gaps are in three dots that are not all adjacent. -/
inductive DotGaps where
  | first
  | last
  | both
  deriving DecidableEq, Repr

inductive LexFault where
  | oneDot
  | twoDots (apart : Bool)
  | threeDots (gaps : DotGaps)
  | loneMinus
  | leadingZero (text : String)
  | missingExponentDigits (text : String)
  | unterminatedString
  | newlineInString
  | badStringCharacter (c : Char)
  /-- A backslash with a character that it cannot escape, or with nothing left on its line. -/
  | badEscape (c : Option Char)
  /-- The digits that were found after `\u`. -/
  | badUnicodeEscape (digits : String)
  | unterminatedBlock
  | badBlockCharacter (c : Char)
  | unexpectedCharacter (c : Char)
  deriving DecidableEq, Repr

namespace LexFault

def message : LexFault → String
  | oneDot => "Unexpected `.`"
  | twoDots false => "Unexpected `..` (use `...` for spread operator)"
  | twoDots true => "Unexpected `. .` (use `...` for spread operator)"
  | threeDots .first => "Unexpected `. ..`"
  | threeDots .last => "Unexpected `.. .`"
  | threeDots .both => "Unexpected `. . .`"
  | loneMinus => "Unexpected `-`"
  | leadingZero text => "Invalid number: leading zeros are not allowed: `" ++ text ++ "`"
  | missingExponentDigits text =>
    "Invalid number: exponent must have at least one digit: `" ++ text ++ "`"
  | unterminatedString | newlineInString => "Unterminated string literal"
  | badStringCharacter c => "Invalid character " ++ describeChar c ++ " in string literal"
  | badEscape (some c) => "Invalid escape sequence `\\" ++ c.toString ++ "`"
  | badEscape none => "Invalid escape sequence `\\`"
  | badUnicodeEscape digits => "Invalid unicode escape sequence `\\u" ++ digits ++ "`"
  | unterminatedBlock => "Unterminated block string"
  | badBlockCharacter c => "Invalid character " ++ describeChar c ++ " in block string"
  | unexpectedCharacter c => "Unexpected character " ++ describeChar c

def specInt : Note := .spec "https://spec.graphql.org/October2021/#sec-Int-Value"

def specFloat : Note := .spec "https://spec.graphql.org/October2021/#sec-Float-Value"

def specString : Note := .spec "https://spec.graphql.org/October2021/#sec-String-Value"

def dotSpacingHelp : Note :=
  .help ("These dots may have been intended to form a `...` spread operator. " ++
    "Try removing the extra spacing between the dots.")

/-- The notes of a fault. An unterminated literal points back at the place where it starts. -/
def notes (start : Position) : LexFault → List Note
  | oneDot | loneMinus => []
  | twoDots false => [.help "Add one more `.` to form the spread operator `...`"]
  | twoDots true | threeDots _ => [dotSpacingHelp]
  | leadingZero _ => [specInt]
  | missingExponentDigits _ => [specFloat]
  | unterminatedString =>
    [.generalAt "String started here" (.emptyAt start), .help "Add closing `\"`"]
  | newlineInString =>
    [.general "Single-line strings cannot contain unescaped newlines",
      .help ("Use a block string (triple quotes) for multi-line strings, " ++
        "or escape the newline with `\\n`")]
  | badStringCharacter _ | badBlockCharacter _ | badEscape none => [specString]
  | badEscape (some _) =>
    [.help ("Valid escape sequences are `\\\"`, `\\\\`, `\\/`, `\\b`, " ++
      "`\\f`, `\\n`, `\\r`, `\\t`, and `\\uXXXX`")]
  | badUnicodeEscape _ =>
    [.help ("`\\u` must be followed by exactly four hexadecimal " ++
      "digits naming a non-surrogate code point")]
  | unterminatedBlock =>
    [.generalAt "Block string started here" (.emptyAt start), .help "Add closing `\"\"\"`"]
  | unexpectedCharacter c =>
    if c.toNat = 0xFEFF then
      [.help ("Byte order marks are not valid GraphQL source characters; " ++
        "remove it from the document")]
    else []

end LexFault

end GraphQLSyntax
