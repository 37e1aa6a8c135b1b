/-!
# Positions in a text

A position counts the line, the characters and UTF-16 units before it on that line, and the bytes
before it in the text, all from zero. A mark is the position a scan has reached. It also remembers
whether a carriage return was just passed, because a line feed right after one ends no second line.
-/

set_option autoImplicit false

namespace GraphQLSyntax

/-- A line as people count it, from one, with a column counted from zero. -/
structure Place where
  line : Nat
  column : Nat
  deriving DecidableEq, Repr

/-- Editors show columns from one. -/
def Place.label (p : Place) : String :=
  toString p.line ++ ":" ++ toString (p.column + 1)

structure Position where
  line : Nat
  column : Nat
  /-- Absent when whoever made the tokens does not count UTF-16 units. -/
  column16 : Option Nat
  offset : Nat
  deriving DecidableEq, Repr

namespace Position

def origin : Position := ⟨0, 0, some 0, 0⟩

def place (p : Position) : Place := ⟨p.line + 1, p.column⟩

end Position

/-- The number of UTF-16 code units that encode a character. -/
def units16 (c : Char) : Nat :=
  if c.val ≤ 0xFFFF then 1 else 2

def byteLength : List Char → Nat
  | [] => 0
  | c :: cs => c.utf8Size + byteLength cs

def utf16Length : List Char → Nat
  | [] => 0
  | c :: cs => units16 c + utf16Length cs

def isAscii (text : List Char) : Bool :=
  text.all fun c => c.val ≤ 0x7F

structure Mark where
  line : Nat
  column : Nat
  column16 : Nat
  offset : Nat
  afterReturn : Bool
  deriving DecidableEq, Repr

namespace Mark

def start : Mark := ⟨0, 0, 0, 0, false⟩

/-- Passes one character. A line feed, a carriage return and the pair of both each end one line. -/
def step (m : Mark) (c : Char) : Mark :=
  if c = '\n' then
    if m.afterReturn then
      { m with offset := m.offset + c.utf8Size, afterReturn := false }
    else
      ⟨m.line + 1, 0, 0, m.offset + c.utf8Size, false⟩
  else if c = '\r' then
    ⟨m.line + 1, 0, 0, m.offset + c.utf8Size, true⟩
  else
    ⟨m.line, m.column + 1, m.column16 + units16 c, m.offset + c.utf8Size, false⟩

def advance (m : Mark) (text : List Char) : Mark :=
  text.foldl step m

/-- Passes at once what stands on one line. Of an ASCII text only the bytes are counted, as all else is as
many. -/
def passRun (m : Mark) (run : List Char) : Mark :=
  let bytes := byteLength run
  -- What follows an empty run still follows the carriage return.
  let afterReturn := m.afterReturn && run.isEmpty
  if isAscii run then
    ⟨m.line, m.column + bytes, m.column16 + bytes, m.offset + bytes, afterReturn⟩
  else
    ⟨m.line, m.column + run.length, m.column16 + utf16Length run, m.offset + bytes, afterReturn⟩

def position (m : Mark) : Position :=
  ⟨m.line, m.column, some m.column16, m.offset⟩

@[simp] theorem advance_nil (m : Mark) : m.advance [] = m := rfl

@[simp] theorem advance_cons (m : Mark) (c : Char) (text : List Char) :
    m.advance (c :: text) = (m.step c).advance text := rfl

theorem advance_append (m : Mark) (s t : List Char) : m.advance (s ++ t) = (m.advance s).advance t :=
  List.foldl_append

end Mark

end GraphQLSyntax
