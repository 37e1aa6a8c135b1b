import GraphQLSyntax.Source.Lines
import GraphQLSyntax.Token.Scan

/-!
# The tokens of a text

Spaces, tabs, commas, line terminators and comments separate tokens and are ignored otherwise. After a
fault the tokens go on behind it, and the last token is always the end of the input.

A comment and a token are passed when their lengths are known from a scan. Names, numbers, comments and some
parts of string literals stand on one line and are passed at once. All else is passed one character at a
time.
-/

set_option autoImplicit false

namespace GraphQLSyntax

/-- What separates tokens, comments apart. -/
def isIgnoredChar (c : Char) : Bool :=
  isBlankChar c || isLineTerminator c || c = ','

/-- The length of a comment after its number sign. -/
def commentRun (cs : List Char) : Nat :=
  (cs.takeWhile fun c => !isLineTerminator c).length

namespace Mark

/-- Passes a quoted literal. The first `skip` characters were passed already. The digits of a `\u` escape are
one run. -/
def passQuoted (m : Mark) : Nat → List Char → Mark
  | _, [] => m
  | skip + 1, _ :: cs => m.passQuoted skip cs
  | 0, '\\' :: 'u' :: cs =>
    let digits := unicodeDigits cs
    (((m.step '\\').step 'u').passRun digits).passQuoted digits.length cs
  | 0, '\\' :: c :: cs => ((m.step '\\').step c).passQuoted 0 cs
  | 0, c :: cs => (m.step c).passQuoted 0 cs

/-- Passes a block string. Its quotes, and three quotes that are escaped, are runs. -/
def passBlock (m : Mark) : List Char → Mark
  | [] => m
  | '"' :: '"' :: '"' :: cs => (m.passRun tripleQuote).passBlock cs
  | '\\' :: '"' :: '"' :: '"' :: cs => (m.passRun ('\\' :: tripleQuote)).passBlock cs
  | c :: cs => (m.step c).passBlock cs

/-- Passes the text of a token, or the part of it before a fault. -/
def passToken (m : Mark) : List Char → Mark
  | [] => m
  | '"' :: '"' :: '"' :: cs => m.passBlock ('"' :: '"' :: '"' :: cs)
  | '"' :: cs => m.passQuoted 0 ('"' :: cs)
  | c :: cs =>
    if isNameStart c ∨ c = '-' ∨ c.isDigit then m.passRun (c :: cs) else m.advance (c :: cs)

end Mark

namespace Token

def endAt (file : Option Path) (m : Mark) : Token :=
  ⟨.endOfInput, ⟨m.position, m.position, file⟩⟩

/-- The token that a scan of a text finds between two marks. -/
def scanned (file : Option Path) (m stop : Mark) (text : List Char) (s : Scan) : Token :=
  match s.outcome with
  | .token kind => ⟨kind, ⟨m.position, stop.position, file⟩⟩
  | .fault lead fault =>
    ⟨.error fault.message (fault.notes m.position),
      ⟨(m.passToken (text.take lead)).position, stop.position, file⟩⟩

end Token

/-- Adds the tokens of a text, last first, to those before it. The first `skip` characters were passed
already. -/
def lexOnto (file : Option Path) (before : List Token) (m : Mark) : Nat → List Char → List Token
  | _, [] => Token.endAt file m :: before
  | skip + 1, _ :: cs => lexOnto file before m skip cs
  | 0, c :: cs =>
    if isIgnoredChar c then lexOnto file before (m.step c) 0 cs
    else if c = '#' then
      let run := commentRun cs
      lexOnto file before (m.passRun ('#' :: cs.take run)) run cs
    else
      let scan := scanToken c cs
      let stop := m.passToken ((c :: cs).take (scan.extra + 1))
      lexOnto file (Token.scanned file m stop (c :: cs) scan :: before) stop scan.extra cs

/-- The tokens of a text, whose spans name the file if one is given. -/
def lex (file : Option Path) (text : String) : List Token :=
  (lexOnto file [] .start 0 text.toList).reverse

end GraphQLSyntax
