/-!
# Reading UTF-8

Bytes are read one at a time. The reader keeps the character begun so far, with the bytes still owed
and the range of the next one. Where the bytes stop being UTF-8 it reports how many were good, and how
many after them can begin no character, unless the bytes merely end too soon.
-/

set_option autoImplicit false

namespace GraphQLSyntax

structure Utf8Fault where
  validBytes : Nat
  /-- Absent when the bytes end inside a character. -/
  badBytes : Option Nat
  deriving DecidableEq, Repr

def Utf8Fault.message (f : Utf8Fault) : String :=
  match f.badBytes with
  | some n =>
    "invalid utf-8 sequence of " ++ toString n ++ " bytes from index " ++ toString f.validBytes
  | none => "incomplete utf-8 byte sequence from index " ++ toString f.validBytes

/-- A character begun: bytes taken and owed, the range of the next byte, and the bits so far. -/
structure Utf8Sequence where
  taken : Nat
  owed : Nat
  low : Nat
  high : Nat
  bits : Nat
  deriving DecidableEq, Repr

namespace Utf8Sequence

def none : Utf8Sequence := ⟨0, 0, 0x80, 0xBF, 0⟩

/-- The character that a first byte begins. -/
def begin? (b : Nat) : Option Utf8Sequence :=
  if b ≤ 0x7F then some ⟨1, 0, 0x80, 0xBF, b⟩
  else if 0xC2 ≤ b && b ≤ 0xDF then some ⟨1, 1, 0x80, 0xBF, b - 0xC0⟩
  else if b = 0xE0 then some ⟨1, 2, 0xA0, 0xBF, 0⟩
  else if b = 0xED then some ⟨1, 2, 0x80, 0x9F, 0xD⟩
  else if 0xE1 ≤ b && b ≤ 0xEF then some ⟨1, 2, 0x80, 0xBF, b - 0xE0⟩
  else if b = 0xF0 then some ⟨1, 3, 0x90, 0xBF, 0⟩
  else if 0xF1 ≤ b && b ≤ 0xF3 then some ⟨1, 3, 0x80, 0xBF, b - 0xF0⟩
  else if b = 0xF4 then some ⟨1, 3, 0x80, 0x8F, 4⟩
  else Option.none

def next? (s : Utf8Sequence) (b : Nat) : Option Utf8Sequence :=
  if s.owed = 0 then begin? b
  else if s.low ≤ b && b ≤ s.high then
    some ⟨s.taken + 1, s.owed - 1, 0x80, 0xBF, 64 * s.bits + (b - 0x80)⟩
  else Option.none

end Utf8Sequence

/-- Reads on from a sequence that starts at an offset, with the characters before it reversed. -/
def decodeUtf8From (s : Utf8Sequence) (offset : Nat) (before : List Char) :
    List UInt8 → Except Utf8Fault (List Char)
  | [] => if s.owed = 0 then .ok before.reverse else .error ⟨offset, none⟩
  | b :: bs =>
    match s.next? b.toNat with
    | none => .error ⟨offset, some (if s.owed = 0 then 1 else s.taken)⟩
    | some next =>
      if next.owed = 0 then
        decodeUtf8From .none (offset + next.taken) (Char.ofNat next.bits :: before) bs
      else
        decodeUtf8From next offset before bs

def decodeUtf8 (bytes : List UInt8) : Except Utf8Fault String :=
  (decodeUtf8From .none 0 [] bytes).map String.ofList

end GraphQLSyntax
