import GraphQLSyntax.Token.Basic

/-!
# Token streams

A stream hands out tokens one after the other and lets a reader look ahead. Tokens are pulled from the
pending ones only when they are asked for, and wait in a buffer until they are consumed.
-/

set_option autoImplicit false

namespace GraphQLSyntax

structure TokenStream where
  buffer : List Token
  pending : List Token
  deriving DecidableEq, Repr

namespace TokenStream

def ofList (tokens : List Token) : TokenStream := ⟨[], tokens⟩

def toList (s : TokenStream) : List Token := s.buffer ++ s.pending

/-- Pulls tokens until the buffer holds the given number, or none is left. -/
def fill (s : TokenStream) (count : Nat) : TokenStream :=
  let missing := count - s.buffer.length
  ⟨s.buffer ++ s.pending.take missing, s.pending.drop missing⟩

/-- The token with the given number among those to come, counted from zero. -/
def peekNth (s : TokenStream) (n : Nat) : Option Token × TokenStream :=
  let s := s.fill (n + 1)
  (s.buffer[n]?, s)

def peek (s : TokenStream) : Option Token × TokenStream :=
  s.peekNth 0

def consume (s : TokenStream) : Option Token × TokenStream :=
  let s := s.fill 1
  match s.buffer with
  | [] => (none, s)
  | token :: buffer => (some token, { s with buffer })

/-- Whether no token is left, or the next one is the end of the input. -/
def isAtEnd (s : TokenStream) : Bool × TokenStream :=
  match s.peek with
  | (none, s) => (true, s)
  | (some token, s) => (token.kind == .endOfInput, s)

@[simp] theorem toList_fill (s : TokenStream) (count : Nat) : (s.fill count).toList = s.toList := by
  simp [fill, toList, List.append_assoc]

end TokenStream

end GraphQLSyntax
