import GraphQLSyntax.Number.Literal
import GraphQLSyntax.StringLiteral.Block
import GraphQLSyntax.StringLiteral.Escape
import GraphQLSyntax.Token.Basic
import GraphQLSyntax.Token.Fault

/-!
# Scanning one token

A scan looks at the front of a text and says how many characters belong to the token there, and which
token it is or what is wrong with it. It knows nothing of positions. A token always has a first
character, so scans report how many more it has.
-/

set_option autoImplicit false

namespace GraphQLSyntax

def isNameStart (c : Char) : Bool :=
  c = '_' || c.isAlpha

def isNameContinue (c : Char) : Bool :=
  c = '_' || c.isAlphanum

/-- What may stand unescaped in a quoted literal, quotes and backslashes apart. -/
def isStringCharacter (c : Char) : Bool :=
  0x20 ≤ c.toNat && c.toNat ≤ 0xFFFF && c.toNat != 0xFEFF

/-- A block string may also hold tabs and line terminators. -/
def isBlockCharacter (c : Char) : Bool :=
  c = '\t' || isLineTerminator c || isStringCharacter c

inductive ScanOutcome where
  | token (kind : TokenKind)
  /-- A fault that starts after the given number of characters. -/
  | fault (lead : Nat) (fault : LexFault)
  deriving DecidableEq, Repr

structure Scan where
  /-- The characters after the first one. -/
  extra : Nat
  outcome : ScanOutcome
  deriving DecidableEq, Repr

/-- The token that a word is. -/
def TokenKind.ofWord (word : List Char) : TokenKind :=
  let text := String.ofList word
  if text = "true" then .boolean true
  else if text = "false" then .boolean false
  else if text = "null" then .null
  else .name text

def scanName (c : Char) (cs : List Char) : Scan :=
  let word := cs.takeWhile isNameContinue
  ⟨word.length, .token (.ofWord (c :: word))⟩

/-- Scans what follows a dot. Spaces and tabs between dots are passed over to tell the reader what was
meant, but only three adjacent dots are a token. -/
def scanDots (cs : List Char) : Scan :=
  let firstGap := blankRun cs
  match cs.drop firstGap with
  | '.' :: rest =>
    let lastGap := blankRun rest
    match rest.drop lastGap with
    | '.' :: _ =>
      let outcome : ScanOutcome :=
        match firstGap, lastGap with
        | 0, 0 => .token (.punctuator .ellipsis)
        | 0, _ + 1 => .fault 0 (.threeDots .last)
        | _ + 1, 0 => .fault 0 (.threeDots .first)
        | _ + 1, _ + 1 => .fault 0 (.threeDots .both)
      ⟨firstGap + lastGap + 2, outcome⟩
    | _ => ⟨firstGap + 1 + lastGap, .fault 0 (.twoDots (firstGap ≠ 0))⟩
  | _ => ⟨firstGap, .fault 0 .oneDot⟩

def scanNumberToken (text : List Char) : Scan :=
  match scanNumber text with
  | .literal kind length =>
    let raw := String.ofList (text.take length)
    ⟨length - 1, .token (match kind with | .int => .int raw | .float => .float raw)⟩
  | .fault fault length =>
    let raw := String.ofList (text.take length)
    let fault : LexFault :=
      match fault with
      | .missingDigits => .loneMinus
      | .leadingZero => .leadingZero raw
      | .missingExponentDigits => .missingExponentDigits raw
    ⟨length - 1, .fault 0 fault⟩

/-- How a string literal ends, with lengths counted from its first quote. -/
inductive LiteralEnd where
  | closed (length : Nat)
  | fault (lead length : Nat) (fault : LexFault)
  deriving DecidableEq, Repr

/-- Scans on in a quoted literal after `n` of its characters. -/
def scanQuoted (n : Nat) : List Char → LiteralEnd
  | [] => .fault 0 n .unterminatedString
  | '"' :: _ => .closed (n + 1)
  | '\\' :: 'u' :: a :: b :: c :: d :: cs =>
    if (escapedScalar? a b c d).isSome then scanQuoted (n + 6) cs
    else
      let digits := unicodeDigits [a, b, c, d]
      .fault n (n + 2 + digits.length) (.badUnicodeEscape (String.ofList digits))
  | '\\' :: 'u' :: cs =>
    .fault n (n + 2 + (unicodeDigits cs).length) (.badUnicodeEscape (String.ofList (unicodeDigits cs)))
  | '\\' :: c :: cs =>
    if (namedEscape? c).isSome then scanQuoted (n + 2) cs
    else if isLineTerminator c then .fault n (n + 1) (.badEscape none)
    else .fault n (n + 2) (.badEscape (some c))
  | ['\\'] => .fault n (n + 1) (.badEscape none)
  | c :: cs =>
    if isLineTerminator c then .fault 0 n .newlineInString
    else if isStringCharacter c then scanQuoted (n + 1) cs
    else .fault n (n + 1) (.badStringCharacter c)

/-- Scans on in a block string after `n` of its characters. -/
def scanBlock (n : Nat) : List Char → LiteralEnd
  | [] => .fault 0 n .unterminatedBlock
  | '"' :: '"' :: '"' :: _ => .closed (n + 3)
  | '\\' :: '"' :: '"' :: '"' :: cs => scanBlock (n + 4) cs
  | c :: cs =>
    if isBlockCharacter c then scanBlock (n + 1) cs
    else .fault n (n + 1) (.badBlockCharacter c)

/-- Where the literal ends that a quote starts. -/
def literalEnd : List Char → LiteralEnd
  | '"' :: '"' :: cs => scanBlock 3 cs
  | cs => scanQuoted 1 cs

def scanString (cs : List Char) : Scan :=
  match literalEnd cs with
  | .closed length => ⟨length - 1, .token (.string (String.ofList ('"' :: cs.take (length - 1))))⟩
  | .fault lead length fault => ⟨length - 1, .fault lead fault⟩

def scanToken (c : Char) (cs : List Char) : Scan :=
  match Punctuator.ofChar? c with
  | some p => ⟨0, .token (.punctuator p)⟩
  | none =>
    if c = '.' then scanDots cs
    else if c = '"' then scanString cs
    else if isNameStart c then scanName c cs
    else if c = '-' ∨ c.isDigit then scanNumberToken (c :: cs)
    else ⟨0, .fault 0 (.unexpectedCharacter c)⟩

end GraphQLSyntax
