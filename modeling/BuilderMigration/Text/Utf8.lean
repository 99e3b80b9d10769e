import BuilderMigration.Text.Quoted

/-! Strict decoding of UTF-8, with the place and the kind of the first fault. -/

namespace BuilderMigration

/-- What is wrong with some bytes. -/
inductive Utf8Error.Kind where
  | startByte | continuationByte | cutShort
  deriving DecidableEq

/-- The bytes at fault: where they begin, how many they are and the first of them. -/
structure Utf8Error where
  offset : Nat
  count : Nat
  first : UInt8
  kind : Utf8Error.Kind
  deriving DecidableEq

namespace Utf8Error

def Kind.message : Kind → String
  | startByte => "invalid start byte"
  | continuationByte => "invalid continuation byte"
  | cutShort => "unexpected end of data"

def message (e : Utf8Error) : String :=
  let place :=
    if e.count = 1 then
      "byte 0x" ++ String.ofList (Text.hexPair e.first.toNat)
        ++ " in position " ++ toString e.offset
    else "bytes in position " ++ toString e.offset ++ "-" ++ toString (e.offset + e.count - 1)
  "'utf-8' codec can't decode " ++ place ++ ": " ++ e.kind.message

end Utf8Error

namespace Utf8

/-- Whether a byte continues a character. -/
def continues (b : UInt8) : Bool := 0x80 ≤ b && b < 0xC0

/-- The six bits that a continuing byte gives. -/
def low (b : UInt8) : Nat := b.toNat % 64

/-- Whether the second byte of a character rules out long forms, surrogates and code points that are
too large. -/
def secondFits (first second : UInt8) : Bool :=
  continues second
    && !(first == 0xE0 && second < 0xA0) && !(first == 0xED && second ≥ 0xA0)
    && !(first == 0xF0 && second < 0x90) && !(first == 0xF4 && second ≥ 0x90)

/-- How many bytes the character with some first byte has. -/
def width? (first : UInt8) : Option Nat :=
  if first < 0x80 then some 1
  else if first < 0xC2 then none
  else if first < 0xE0 then some 2
  else if first < 0xF0 then some 3
  else if first < 0xF5 then some 4
  else none

/-- The character at the head of some bytes and its width, or the fault there and how many bytes it
takes. -/
def head (first : UInt8) (rest : List UInt8) : Except (Utf8Error.Kind × Nat) (Char × Nat) :=
  match width? first, rest with
  | none, _ => .error (.startByte, 1)
  | some 1, _ => .ok (Char.ofNat first.toNat, 1)
  | some _, [] => .error (.cutShort, 1)
  | some width, b :: bs =>
    if !secondFits first b then .error (.continuationByte, 1)
    else if width = 2 then .ok (Char.ofNat (first.toNat % 32 * 64 + low b), 2)
    else
      match bs with
      | [] => .error (.cutShort, 2)
      | c :: cs =>
        if !continues c then .error (.continuationByte, 2)
        else if width = 3 then
          .ok (Char.ofNat ((first.toNat % 16 * 64 + low b) * 64 + low c), 3)
        else
          match cs with
          | [] => .error (.cutShort, 3)
          | d :: _ =>
            if !continues d then .error (.continuationByte, 3)
            else .ok (Char.ofNat (((first.toNat % 8 * 64 + low b) * 64 + low c) * 64 + low d), 4)

/-- Decodes from an offset, where `pending` bytes belong to the character that has begun. -/
def decodeFrom (offset : Nat) : Nat → List UInt8 → Except Utf8Error (List Char)
  | _, [] => .ok []
  | pending + 1, _ :: bs => decodeFrom (offset + 1) pending bs
  | 0, b :: bs =>
    match head b bs with
    | .error (kind, count) => .error ⟨offset, count, b, kind⟩
    | .ok (c, width) => (decodeFrom (offset + 1) (width - 1) bs).map (c :: ·)

/-- The text of some bytes. -/
def decode (bytes : List UInt8) : Except Utf8Error String :=
  (decodeFrom 0 0 bytes).map String.ofList

/-- The bytes of a text. -/
def encode (s : String) : List UInt8 := s.toUTF8.data.toList

end Utf8

end BuilderMigration
