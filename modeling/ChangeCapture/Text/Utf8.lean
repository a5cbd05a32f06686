/-!
# UTF-8 text

Bytes are plain lists of octets. `Utf8.encode` writes text, `Utf8.decode` reads it back and says of
a byte sequence that is not text where it goes wrong and how long the faulty part is.

## Main definitions

* `Utf8.encode`: the bytes of a text.
* `Utf8.decode`: the characters of a byte sequence, or the first fault in it.
* `Utf8.Fault`: where a byte sequence stops being UTF-8.
-/

namespace ChangeCapture

/-- A sequence of octets: what a store holds and what a file contains. -/
abbrev Bytes := List UInt8

namespace Utf8

/-- **The first place where bytes stop being UTF-8.** Everything before `start` is text. A fault
with a `length` is that many bytes which no character can begin with; one without is a character
that the end of the bytes cuts off. -/
structure Fault where
  start : Nat
  length : Option Nat
  deriving DecidableEq, Repr

/-- The wording of a fault. -/
def Fault.message (f : Fault) : String :=
  match f.length with
  | some n => "invalid utf-8 sequence of " ++ toString n ++ " bytes from index " ++ toString f.start
  | none => "incomplete utf-8 byte sequence from index " ++ toString f.start

/-- The bytes of a text. -/
def encodeChars (cs : List Char) : Bytes :=
  cs.flatMap String.utf8EncodeChar

/-- The bytes of a string. -/
def encode (s : String) : Bytes :=
  encodeChars s.toList

/-- How many bytes a character has whose first byte is `a`; zero when none starts with it. -/
def width (a : UInt8) : Nat :=
  if a < 0x80 then 1
  else if a < 0xC2 then 0
  else if a < 0xE0 then 2
  else if a < 0xF0 then 3
  else if a < 0xF5 then 4
  else 0

/-- Continuation bytes. -/
def isTail (b : UInt8) : Bool :=
  0x80 ≤ b && b < 0xC0

/-- Whether `b` may follow the first byte `a` of a character of more than one byte. Four first bytes
narrow the range: two shut out longer spellings of a shorter character, one the surrogates and one
everything above the last code point. -/
def isSecond (a b : UInt8) : Bool :=
  if a == 0xE0 then 0xA0 ≤ b && b < 0xC0
  else if a == 0xED then 0x80 ≤ b && b < 0xA0
  else if a == 0xF0 then 0x90 ≤ b && b < 0xC0
  else if a == 0xF4 then 0x80 ≤ b && b < 0x90
  else isTail b

/-- The character of two bytes. -/
def scalar₂ (a b : UInt8) : Char :=
  Char.ofNat (a.toNat % 32 * 64 + b.toNat % 64)

/-- The character of three bytes. -/
def scalar₃ (a b c : UInt8) : Char :=
  Char.ofNat (a.toNat % 16 * 4096 + b.toNat % 64 * 64 + c.toNat % 64)

/-- The character of four bytes. -/
def scalar₄ (a b c d : UInt8) : Char :=
  Char.ofNat (a.toNat % 8 * 262144 + b.toNat % 64 * 4096 + c.toNat % 64 * 64 + d.toNat % 64)

/-- Puts a character before a decoded rest. -/
def push (c : Char) : Except Fault (List Char) → Except Fault (List Char)
  | .ok cs => .ok (c :: cs)
  | .error f => .error f

/-- Decodes bytes of which the first stands at index `i` of the whole. -/
def decodeFrom (i : Nat) : Bytes → Except Fault (List Char)
  | [] => .ok []
  | a :: s =>
    if width a = 1 then push (Char.ofNat a.toNat) (decodeFrom (i + 1) s)
    else if width a = 2 then
      match s with
      | [] => .error ⟨i, none⟩
      | b :: s =>
        if isSecond a b then push (scalar₂ a b) (decodeFrom (i + 2) s) else .error ⟨i, some 1⟩
    else if width a = 3 then
      match s with
      | [] => .error ⟨i, none⟩
      | [b] => .error ⟨i, if isSecond a b then none else some 1⟩
      | b :: c :: s =>
        if !isSecond a b then .error ⟨i, some 1⟩
        else if !isTail c then .error ⟨i, some 2⟩
        else push (scalar₃ a b c) (decodeFrom (i + 3) s)
    else if width a = 4 then
      match s with
      | [] => .error ⟨i, none⟩
      | [b] => .error ⟨i, if isSecond a b then none else some 1⟩
      | [b, c] =>
        .error ⟨i, if !isSecond a b then some 1 else if !isTail c then some 2 else none⟩
      | b :: c :: d :: s =>
        if !isSecond a b then .error ⟨i, some 1⟩
        else if !isTail c then .error ⟨i, some 2⟩
        else if !isTail d then .error ⟨i, some 3⟩
        else push (scalar₄ a b c d) (decodeFrom (i + 4) s)
    else .error ⟨i, some 1⟩

/-- The characters that bytes spell. -/
def decodeChars (s : Bytes) : Except Fault (List Char) :=
  decodeFrom 0 s

/-- The string that bytes spell. -/
def decode (s : Bytes) : Except Fault String :=
  match decodeChars s with
  | .ok cs => .ok (String.ofList cs)
  | .error f => .error f

/-- Whether bytes are text. -/
def isText (s : Bytes) : Bool :=
  match decodeChars s with
  | .ok _ => true
  | .error _ => false

end Utf8

end ChangeCapture
