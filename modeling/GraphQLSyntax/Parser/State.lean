import GraphQLSyntax.Node.Value
import GraphQLSyntax.Parser.Enclosure
import GraphQLSyntax.Parser.Expected
import GraphQLSyntax.Token.Stream

/-!
# Parsers

A parser reads tokens from a stream and stops at the first error. It remembers the delimiters that are
open, how deep constructs are nested, and where the last token it consumed ends. An error keeps the
state in which it arose.
-/

set_option autoImplicit false

namespace GraphQLSyntax

structure ParserState where
  stream : TokenStream
  /-- The open delimiters, the innermost one first. -/
  openers : List Opener
  depth : Nat
  lastEnd : Option Position
  deriving DecidableEq, Repr

namespace ParserState

def ofTokens (tokens : List Token) : ParserState :=
  ⟨.ofList tokens, [], 0, none⟩

/-- Where an error stands when the input ends: after the last token, or at the origin before any. -/
def endSpan (s : ParserState) : Span :=
  .emptyAt (s.lastEnd.getD .origin)

/-- From the start of a span to the end of the last token. -/
def spanFrom (s : ParserState) (first : Span) : Span :=
  ⟨first.start, s.lastEnd.getD first.stop, first.file⟩

end ParserState

abbrev Parser (α : Type) := EStateM ParseError ParserState α

/-- Values, selection sets and types are nested at most this deep. -/
def maxDepth : Nat := 64

namespace Parser

def peekNth (n : Nat) : Parser (Option Token) := fun s =>
  match s.stream.peekNth n with
  | (token, stream) => .ok token { s with stream }

def peekKindNth (n : Nat) : Parser (Option TokenKind) := do
  return (← peekNth n).map Token.kind

def peekKind : Parser (Option TokenKind) :=
  peekKindNth 0

def peekIs (p : Punctuator) : Parser Bool := do
  return (← peekKind) == some (.punctuator p)

def peekIsWord (word : String) : Parser Bool := do
  return (← peekKind) == some (.name word)

def isAtEnd : Parser Bool := fun s =>
  match s.stream.isAtEnd with
  | (atEnd, stream) => .ok atEnd { s with stream }

def endSpan : Parser Span := do
  return (← get).endSpan

def peekSpan : Parser Span := do
  match ← peekNth 0 with
  | some token => return token.span
  | none => endSpan

def spanFrom (first : Span) : Parser Span := do
  return (← get).spanFrom first

/-- Fails because the next token is not what is expected. -/
def unexpected {α : Type} (expected : Expected) : Parser α := do
  match ← peekNth 0 with
  | some token => throw (.unexpected token expected)
  | none => throw (.unexpectedEnd (← endSpan) expected)

def next : Parser Token := fun s =>
  match s.stream.consume with
  | (some token, stream) => .ok token { s with stream, lastEnd := some token.span.stop }
  | (none, stream) =>
    .error ⟨"unexpected end of input", s.endSpan, .unexpectedEnd [], []⟩ { s with stream }

def expect (p : Punctuator) : Parser Token := do
  if ← peekIs p then next else unexpected (.text p.text)

def expectWord (word : String) : Parser Span := do
  if ← peekIsWord word then return (← next).span else unexpected (.text word)

/-- A name. The words for booleans and null are names too. -/
def name : Parser Name := do
  match (← peekKind).bind TokenKind.nameText? with
  | some text => return ⟨text, (← next).span⟩
  | none => unexpected .name

def expectEnd : Parser Unit := do
  unless ← isAtEnd do unexpected .endOfInput

/-- Consumes the opening punctuator of an enclosure and remembers it as open. -/
def openEnclosure (e : Enclosure) : Parser Span := do
  let opening ← expect e.opening
  modify fun s => { s with openers := ⟨opening.span, e⟩ :: s.openers }
  return opening.span

def closeInnermost : Parser Unit :=
  modify fun s => { s with openers := s.openers.tail }

/-- Fails at the end of the input: the innermost open delimiter is unclosed. -/
def refuseEnd : Parser Unit := do
  if ← isAtEnd then
    match (← get).openers with
    | [] => pure ()
    | opener :: _ =>
      closeInnermost
      throw (opener.unclosedError (← endSpan))

/-- Consumes the closing punctuator of the innermost enclosure. -/
def closeEnclosure (e : Enclosure) : Parser Unit := do
  refuseEnd
  let _ ← expect e.closing
  closeInnermost

/-- Whether the innermost enclosure has more content. -/
def hasMore (e : Enclosure) : Parser Bool := do
  if ← peekIs e.closing then return false
  return !(← isAtEnd)

/-- Collects items for as long as there are more. Every item takes a token at least, so no more rounds
are needed than there were tokens at the start. -/
def collect {α : Type} (more : Parser Bool) (item : Parser α) :
    List Token → List α → Parser (List α)
  | tokens, items => do
    if ← more then
      match tokens with
      | [] => return items.reverse
      | _ :: tokens =>
        let i ← item
        collect more item tokens (i :: items)
    else return items.reverse

def repeatWhile {α : Type} (more : Parser Bool) (item : Parser α) : Parser (List α) := do
  collect more item (← get).stream.toList []

/-- The items of an enclosure and its span. -/
def enclosed {α : Type} (e : Enclosure) (item : Parser α) : Parser (List α × Span) := do
  let opening ← openEnclosure e
  let items ← repeatWhile (hasMore e) item
  closeEnclosure e
  return (items, ← spanFrom opening)

/-- The items of an enclosure that must have some. -/
def enclosedSome {α : Type} (e : Enclosure) (item : Parser α) : Parser (List α × Span) := do
  let opening ← openEnclosure e
  if ← peekIs e.closing then
    let _ ← next
    throw (e.emptyError (← spanFrom opening))
  let items ← repeatWhile (hasMore e) item
  closeEnclosure e
  return (items, ← spanFrom opening)

/-- Fails because constructs are nested too deep. -/
def tooDeep {α : Type} : Parser α := do
  throw ⟨"maximum nesting depth exceeded", ← peekSpan, .invalidSyntax, []⟩

/-- One level deeper. The level is left however the construct ends. -/
def nested {α : Type} (p : Parser α) : Parser α := fun s =>
  if s.depth < maxDepth then
    match p { s with depth := s.depth + 1 } with
    | .ok a s => .ok a { s with depth := s.depth - 1 }
    | .error e s => .error e { s with depth := s.depth - 1 }
  else tooDeep s

end Parser

end GraphQLSyntax
