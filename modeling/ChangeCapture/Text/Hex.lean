import ChangeCapture.Text.Hidden
import ChangeCapture.Text.Utf8

/-!
# Hexadecimal text

Two lower-case digits for each byte; reading takes either case. A text of odd length is refused
before any of its characters is looked at.

## Main definitions

* `Hex.encode`, `Hex.decode`, `Hex.Fault`.
-/

namespace ChangeCapture

namespace Hex

/-- Why a text is not hexadecimal. -/
inductive Fault where
  /-- The number of bytes is odd. -/
  | oddLength
  /-- The byte at an index is no digit. -/
  | badDigit (byte : UInt8) (index : Nat)
  deriving DecidableEq, Repr

/-- The wording of a fault. A byte is shown as the character with its number. -/
def Fault.message : Fault → String
  | .oddLength => "Odd number of digits"
  | .badDigit b i =>
    "Invalid character " ++ quoted b ++ " at position " ++ toString i
where
  /-- A byte as a quoted character, the invisible ones escaped. -/
  quoted (b : UInt8) : String :=
    let c := Char.ofNat b.toNat
    let inner :=
      if c = '\n' then "\\n"
      else if c = '\t' then "\\t"
      else if c = '\r' then "\\r"
      else if c = '\'' then "\\'"
      else if c = '\\' then "\\\\"
      else if b = 0 then "\\0"
      else if Debug.isHidden b.toNat then
        "\\u\x7b" ++ String.ofList (Nat.toDigits 16 b.toNat) ++ "\x7d"
      else String.singleton c
    "'" ++ inner ++ "'"

/-- A digit. -/
def digit (n : Nat) : Char :=
  if n < 10 then Char.ofNat (48 + n) else Char.ofNat (87 + n)

/-- The two digits of a byte. -/
def encodeByte (b : UInt8) : List Char :=
  [digit (b.toNat / 16), digit (b.toNat % 16)]

/-- The digits of bytes. -/
def encodeChars (s : Bytes) : List Char :=
  s.flatMap encodeByte

/-- The digits of bytes as a string. -/
def encode (s : Bytes) : String :=
  String.ofList (encodeChars s)

/-- The value of a digit in either case. -/
def value? (b : UInt8) : Option Nat :=
  if 0x30 ≤ b && b ≤ 0x39 then some (b.toNat - 0x30)
  else if 0x61 ≤ b && b ≤ 0x66 then some (b.toNat - 0x57)
  else if 0x41 ≤ b && b ≤ 0x46 then some (b.toNat - 0x37)
  else none

/-- Decodes digits of which the first stands at index `i` of the whole. -/
def decodeFrom (i : Nat) : Bytes → Except Fault Bytes
  | [] => .ok []
  | [_] => .error .oddLength
  | a :: b :: s =>
    match value? a, value? b with
    | none, _ => .error (.badDigit a i)
    | some _, none => .error (.badDigit b (i + 1))
    | some x, some y =>
      match decodeFrom (i + 2) s with
      | .ok bytes => .ok (UInt8.ofNat (x * 16 + y) :: bytes)
      | .error f => .error f

/-- The bytes that a text in hexadecimal spells. -/
def decodeBytes (s : Bytes) : Except Fault Bytes :=
  if s.length % 2 = 1 then .error .oddLength else decodeFrom 0 s

/-- The bytes that a string in hexadecimal spells. -/
def decode (s : String) : Except Fault Bytes :=
  decodeBytes (Utf8.encode s)

end Hex

end ChangeCapture
