import ChangeCapture.Json.Value
import ChangeCapture.Text.Utf8

/-!
# Reading JSON text

A reader takes the bytes that are left and gives a value with what remains. It fails in one of three
ways: the text is malformed, it ends too early, or it is well formed and has another shape than the
one asked for. The first failure in reading order is the answer.

Arrays and objects nest at most `maxDepth` levels; the recursion is on the number of levels left.

## Main definitions

* `Json.readValue`: a value after any blanks.
* `Json.separated`: the items of an array or the members of an object.
* `Json.skipValue`: a value that nobody looks at, read by laxer rules and at any depth.
* `Json.parse`: the value that a whole text spells.
-/

namespace ChangeCapture

namespace Json

/-- Why a text cannot be read as what was asked for. -/
inductive Failure where
  /-- The text breaks the grammar, or a limit on numbers, depth or characters. -/
  | malformed
  /-- The text ends too early. -/
  | truncated
  /-- The text is well formed up to here, and the value is of another shape. -/
  | mismatch
  deriving DecidableEq, Repr

/-- The name of the category of a failure. -/
def Failure.category : Failure → String
  | .malformed => "Syntax"
  | .truncated => "Eof"
  | .mismatch => "Data"

/-- The outcome of a reader: a value with the bytes after it, or a failure. -/
abbrev Parse (α : Type) := Except Failure (α × Bytes)

/-- How many levels of arrays and objects a text may nest. -/
def maxDepth : Nat := 127

/-! ### Bytes -/

/-- The byte of an ASCII character. -/
def byte (c : Char) : UInt8 :=
  UInt8.ofNat c.toNat

/-- Space, line feed, tab and carriage return. -/
def isBlank (b : UInt8) : Bool :=
  b == 0x20 || b == 0x0A || b == 0x09 || b == 0x0D

/-- What follows any blanks. -/
def skipBlanks (s : Bytes) : Bytes :=
  s.dropWhile isBlank

/-- The decimal digits. -/
def isDigit (b : UInt8) : Bool :=
  0x30 ≤ b && b ≤ 0x39

/-- The value of a decimal digit. -/
def digitValue (b : UInt8) : Nat :=
  b.toNat - 0x30

/-- The value of a digit in base sixteen, in either case. -/
def hexValue? (b : UInt8) : Option Nat :=
  if isDigit b then some (b.toNat - 0x30)
  else if 0x61 ≤ b && b ≤ 0x66 then some (b.toNat - 0x57)
  else if 0x41 ≤ b && b ≤ 0x46 then some (b.toNat - 0x37)
  else none

/-- The rest of a word after its first letter. -/
def readWord : List Char → Bytes → Except Failure Bytes
  | [], s => .ok s
  | _ :: _, [] => .error .truncated
  | c :: cs, b :: s => if b = byte c then readWord cs s else .error .malformed

/-! ### Numbers -/

/-- **The significand of a literal**: the value of its digits as long as that stays below `2 ^ 64`,
and the digits left out. -/
def significand : Nat → List Nat → Nat × List Nat
  | n, [] => (n, [])
  | n, d :: ds => if n * 10 + d < Word.size then significand (n * 10 + d) ds else (n, d :: ds)

/-- The double of a literal with the digits `whole`, the digits `fraction` after the point and the
given exponent. -/
def realOf (negative : Bool) (whole fraction : List Nat) (exponent : Int) : Except Failure Number :=
  let (n, left) := significand 0 whole
  let (n, unused) := significand n fraction
  let used := fraction.length - unused.length
  match Binary64.ofDecimal? n ((left.length : Int) - used + exponent) with
  | some x => .ok (.real (x.withSign negative))
  | none => .error .malformed

/-- The number of a literal without point and exponent: an integer if it fits 64 bits, else a
double. Minus zero is a double. -/
def wholeOf (negative : Bool) (whole : List Nat) : Except Failure Number :=
  let (n, left) := significand 0 whole
  if left.isEmpty then
    if !negative then .ok (.integer n)
    else if 0 < n && n ≤ Word.half then .ok (.integer (-(n : Int)))
    else realOf negative whole [] 0
  else realOf negative whole [] 0

/-- The digits at the start of the bytes. -/
def digits (s : Bytes) : List Nat :=
  (s.takeWhile isDigit).map digitValue

/-- The number that a list of digits denotes. -/
def natOfDigits (ds : List Nat) : Nat :=
  ds.foldl (fun n d => n * 10 + d) 0

/-- The exponent of a literal, after its `e`. -/
def readExponent (negative : Bool) (whole fraction : List Nat) (s : Bytes) : Parse Number :=
  let (down, s) := match s with
    | b :: r => if b = byte '-' then (true, r) else if b = byte '+' then (false, r) else (false, s)
    | [] => (false, s)
  match s with
  | [] => .error .truncated
  | b :: _ =>
    if isDigit b then
      let e : Int := natOfDigits (digits s)
      match realOf negative whole fraction (if down then -e else e) with
      | .ok n => .ok (n, s.dropWhile isDigit)
      | .error f => .error f
    else .error .malformed

/-- The fraction of a literal, after its point. -/
def readFraction (negative : Bool) (whole : List Nat) (s : Bytes) : Parse Number :=
  let fraction := digits s
  match fraction, s.dropWhile isDigit with
  | [], [] => .error .truncated
  | [], _ => .error .malformed
  | fraction, b :: r =>
    if b = byte 'e' || b = byte 'E' then readExponent negative whole fraction r
    else
      match realOf negative whole fraction 0 with
      | .ok n => .ok (n, b :: r)
      | .error f => .error f
  | fraction, [] =>
    match realOf negative whole fraction 0 with
    | .ok n => .ok (n, [])
    | .error f => .error f

/-- What follows the digits before the point. -/
def readAfterWhole (negative : Bool) (whole : List Nat) (s : Bytes) : Parse Number :=
  match s with
  | b :: r =>
    if b = byte '.' then readFraction negative whole r
    else if b = byte 'e' || b = byte 'E' then readExponent negative whole [] r
    else
      match wholeOf negative whole with
      | .ok n => .ok (n, b :: r)
      | .error f => .error f
  | [] =>
    match wholeOf negative whole with
    | .ok n => .ok (n, [])
    | .error f => .error f

/-- The digits of a literal after its sign. A zero stands alone before the point. -/
def readDigits (negative : Bool) (s : Bytes) : Parse Number :=
  match s with
  | [] => .error .truncated
  | b :: r =>
    if b = byte '0' then
      if (r.head?.any isDigit) then .error .malformed else readAfterWhole negative [0] r
    else if isDigit b then readAfterWhole negative (digits (b :: r)) ((b :: r).dropWhile isDigit)
    else .error .malformed

/-- A number. -/
def readNumber (s : Bytes) : Parse Number :=
  match s with
  | b :: r => if b = byte '-' then readDigits true r else readDigits false (b :: r)
  | [] => .error .truncated

/-! ### Strings -/

/-- Four digits in base sixteen. -/
def readHex4 (s : Bytes) : Except Failure Nat :=
  match s with
  | a :: b :: c :: d :: _ =>
    match hexValue? a, hexValue? b, hexValue? c, hexValue? d with
    | some a, some b, some c, some d => .ok (((a * 16 + b) * 16 + c) * 16 + d)
    | _, _, _, _ => .error .malformed
  | _ => .error .truncated

/-- Whether a code unit is the first half of a pair. -/
def isHighHalf (n : Nat) : Bool :=
  0xD800 ≤ n && n < 0xDC00

/-- Whether a code unit is the second half of a pair. -/
def isLowHalf (n : Nat) : Bool :=
  0xDC00 ≤ n && n < 0xE000

/-- The second half of a pair whose first half is `high`, with the code point of the pair. -/
def readLowHalf (high : Nat) (s : Bytes) : Except Failure Char :=
  match s with
  | [] => .error .truncated
  | b :: s =>
    if b ≠ byte '\\' then .error .malformed
    else
      match s with
      | [] => .error .truncated
      | b :: s =>
        if b ≠ byte 'u' then .error .malformed
        else
          match readHex4 s with
          | .error f => .error f
          | .ok low =>
            if isLowHalf low then
              .ok (Char.ofNat (0x10000 + (high - 0xD800) * 0x400 + (low - 0xDC00)))
            else .error .malformed

/-- An escape after its backslash: the character and the number of bytes it takes. -/
def readEscape (s : Bytes) : Except Failure (Char × Nat) :=
  match s with
  | [] => .error .truncated
  | b :: r =>
    if b = byte '"' then .ok ('"', 1)
    else if b = byte '\\' then .ok ('\\', 1)
    else if b = byte '/' then .ok ('/', 1)
    else if b = byte 'b' then .ok (Char.ofNat 8, 1)
    else if b = byte 'f' then .ok (Char.ofNat 12, 1)
    else if b = byte 'n' then .ok ('\n', 1)
    else if b = byte 'r' then .ok ('\r', 1)
    else if b = byte 't' then .ok ('\t', 1)
    else if b = byte 'u' then
      match readHex4 r with
      | .error f => .error f
      | .ok n =>
        if isLowHalf n then .error .malformed
        else if isHighHalf n then
          match readLowHalf n (r.drop 4) with
          | .ok c => .ok (c, 11)
          | .error f => .error f
        else .ok (Char.ofNat n, 5)
    else .error .malformed

/-- Puts bytes before those of a string's rest. -/
def prepend (a : Bytes) : Parse Bytes → Parse Bytes
  | .ok (s, r) => .ok (a ++ s, r)
  | .error f => .error f

/-- The bytes of a string after its opening quote. The first argument counts the bytes of an escape
that have been read already. -/
def readStringBytes : Nat → Bytes → Parse Bytes
  | _, [] => .error .truncated
  | k + 1, _ :: s => readStringBytes k s
  | 0, b :: s =>
    if b = byte '"' then .ok ([], s)
    else if b = byte '\\' then
      match readEscape s with
      | .ok (c, n) => prepend (String.utf8EncodeChar c) (readStringBytes n s)
      | .error f => .error f
    else if b < 0x20 then .error .malformed
    else prepend [b] (readStringBytes 0 s)

/-- A string after its opening quote. -/
def readString (s : Bytes) : Parse String :=
  match readStringBytes 0 s with
  | .error f => .error f
  | .ok (bytes, r) =>
    match Utf8.decode bytes with
    | .ok text => .ok (text, r)
    | .error _ => .error .malformed

/-! ### Arrays and objects -/

/-- What stands next in an array or object: an item, or its end. -/
inductive Next where
  | item (s : Bytes)
  | closed (rest : Bytes)

/-- Looks for the next item of a container that ends with `close`. -/
def next (close : UInt8) (first : Bool) (s : Bytes) : Except Failure Next :=
  match skipBlanks s with
  | [] => .error .truncated
  | b :: r =>
    if b = close then .ok (.closed r)
    else if first then .ok (.item (b :: r))
    else if b = byte ',' then
      match skipBlanks r with
      | [] => .error .truncated
      | c :: r => if c = close then .error .malformed else .ok (.item (c :: r))
    else .error .malformed

/-- **The items of a container** up to its closing byte, each given to `item` together with what the
earlier ones have built. Every item but the first takes a comma, so the number of bytes bounds the
number of rounds. -/
def separated {σ : Type} (close : UInt8) (item : σ → Bytes → Parse σ) :
    Nat → Bool → σ → Bytes → Parse σ
  | 0, _, _, _ => .error .malformed
  | rounds + 1, first, state, s =>
    match next close first s with
    | .error f => .error f
    | .ok (.closed rest) => .ok (state, rest)
    | .ok (.item s) =>
      match item state s with
      | .error f => .error f
      | .ok (state, s) => separated close item rounds false state s

/-- The colon between a name and its value. -/
def readColon (s : Bytes) : Except Failure Bytes :=
  match skipBlanks s with
  | [] => .error .truncated
  | b :: r => if b = byte ':' then .ok r else .error .malformed

/-- The name of a member. -/
def readName (s : Bytes) : Parse String :=
  match s with
  | [] => .error .truncated
  | b :: r => if b = byte '"' then readString r else .error .malformed

/-- The items of an array after its bracket. -/
def readItems (value : Bytes → Parse Value) (s : Bytes) : Parse Value :=
  let item (items : List Value) (s : Bytes) : Parse (List Value) :=
    match value s with
    | .ok (v, s) => .ok (v :: items, s)
    | .error f => .error f
  match separated (byte ']') item (s.length + 1) true [] s with
  | .ok (items, s) => .ok (.array items.reverse, s)
  | .error f => .error f

/-- A member of an object: its value goes under its name, over an earlier one. -/
def readMember (value : Bytes → Parse Value) (members : Object) (s : Bytes) : Parse Object :=
  match readName s with
  | .error f => .error f
  | .ok (name, s) =>
    match readColon s with
    | .error f => .error f
    | .ok s =>
      match value s with
      | .ok (v, s) => .ok (Dictionary.put name v members, s)
      | .error f => .error f

/-- The members of an object after its brace. -/
def readMembers (value : Bytes → Parse Value) (s : Bytes) : Parse Object :=
  separated (byte '\x7d') (readMember value) (s.length + 1) true [] s

/-- A value whose arrays and objects are read by the given readers. -/
def readValueWith (items : Bytes → Parse Value) (members : Bytes → Parse Object) (s : Bytes) :
    Parse Value :=
  match skipBlanks s with
  | [] => .error .truncated
  | b :: r =>
    if b = byte 'n' then (readWord ['u', 'l', 'l'] r).map (.null, ·)
    else if b = byte 't' then (readWord ['r', 'u', 'e'] r).map (.bool true, ·)
    else if b = byte 'f' then (readWord ['a', 'l', 's', 'e'] r).map (.bool false, ·)
    else if b = byte '-' || isDigit b then
      match readNumber (b :: r) with
      | .ok (n, s) => .ok (.number n, s)
      | .error f => .error f
    else if b = byte '"' then
      match readString r with
      | .ok (t, s) => .ok (.string t, s)
      | .error f => .error f
    else if b = byte '[' then items r
    else if b = byte '\x7b' then
      match members r with
      | .ok (o, s) => .ok (.object o, s)
      | .error f => .error f
    else .error .malformed

/-- **A value that nests at most the given number of levels.** -/
def readValue : Nat → Bytes → Parse Value
  | 0 => readValueWith (fun _ => .error .malformed) (fun _ => .error .malformed)
  | depth + 1 => readValueWith (readItems (readValue depth)) (readMembers (readValue depth))

/-! ### Values that nobody looks at -/

/-- The exponent of a number that is skipped. -/
def skipExponent (s : Bytes) : Except Failure Bytes :=
  let s := match s with
    | b :: r => if b = byte '-' || b = byte '+' then r else s
    | [] => s
  match s with
  | b :: _ => if isDigit b then .ok (s.dropWhile isDigit) else .error .malformed
  | [] => .error .malformed

/-- A number that is skipped: any size is good, and a number cut off by the end is malformed. -/
def skipNumber (s : Bytes) : Except Failure Bytes :=
  let s := match s with
    | b :: r => if b = byte '-' then r else s
    | [] => s
  let afterWhole (s : Bytes) : Except Failure Bytes :=
    match s with
    | b :: r =>
      if b = byte '.' then
        match digits r, r.dropWhile isDigit with
        | [], _ => .error .malformed
        | _, b :: r => if b = byte 'e' || b = byte 'E' then skipExponent r else .ok (b :: r)
        | _, [] => .ok []
      else if b = byte 'e' || b = byte 'E' then skipExponent r
      else .ok (b :: r)
    | [] => .ok []
  match s with
  | b :: r =>
    if b = byte '0' then if r.head?.any isDigit then .error .malformed else afterWhole r
    else if isDigit b then afterWhole (r.dropWhile isDigit)
    else .error .malformed
  | [] => .error .malformed

/-- The number of bytes of an escape that is skipped: halves of pairs may stand alone. -/
def skipEscape (s : Bytes) : Except Failure Nat :=
  match s with
  | b :: r =>
    if b = byte 'u' then
      match readHex4 r with
      | .ok _ => .ok 5
      | .error f => .error f
    else
      match readEscape s with
      | .ok (_, n) => .ok n
      | .error f => .error f
  | [] => .error .truncated

/-- A string that is skipped, after its opening quote. -/
def skipString : Nat → Bytes → Except Failure Bytes
  | _, [] => .error .truncated
  | k + 1, _ :: s => skipString k s
  | 0, b :: s =>
    if b = byte '"' then .ok s
    else if b = byte '\\' then
      match skipEscape s with
      | .ok n => skipString n s
      | .error f => .error f
    else if b < 0x20 then .error .malformed
    else skipString 0 s

/-- A member that is skipped. -/
def skipMember (value : Bytes → Except Failure Bytes) (s : Bytes) : Except Failure Bytes :=
  match s with
  | [] => .error .truncated
  | b :: r =>
    if b = byte '"' then do value (← readColon (← skipString 0 r)) else .error .malformed

/-- **A value that nobody looks at.** There is no limit on its depth but the number of bytes. -/
def skipValue : Nat → Bytes → Except Failure Bytes
  | 0, _ => .error .malformed
  | depth + 1, s =>
    let all (close : UInt8) (item : Bytes → Except Failure Bytes) (s : Bytes) :
        Except Failure Bytes :=
      (separated close (fun _ s => (item s).map ((), ·)) (s.length + 1) true () s).map Prod.snd
    match skipBlanks s with
    | [] => .error .truncated
    | b :: r =>
      if b = byte 'n' then readWord ['u', 'l', 'l'] r
      else if b = byte 't' then readWord ['r', 'u', 'e'] r
      else if b = byte 'f' then readWord ['a', 'l', 's', 'e'] r
      else if b = byte '-' || isDigit b then skipNumber (b :: r)
      else if b = byte '"' then skipString 0 r
      else if b = byte '[' then all (byte ']') (skipValue depth) r
      else if b = byte '\x7b' then all (byte '\x7d') (skipMember (skipValue depth)) r
      else .error .malformed

/-! ### Values of a known shape -/

/-- The failure of a value that is not of the shape asked for: it has to be well formed as far as
its shape is told by, so a scalar is read to its end and a container is not entered. -/
def unexpected (s : Bytes) : Failure :=
  match skipBlanks s with
  | [] => .truncated
  | b :: r =>
    if b = byte '[' || b = byte '\x7b' then .mismatch
    else
      match readValueWith (fun _ => .error .mismatch) (fun _ => .error .mismatch) (b :: r) with
      | .ok _ => .mismatch
      | .error f => f

/-- A string. -/
def expectString (s : Bytes) : Parse String :=
  match skipBlanks s with
  | b :: r => if b = byte '"' then readString r else .error (unexpected s)
  | [] => .error .truncated

/-- An object that nests at most the given number of levels. -/
def expectObject (depth : Nat) (s : Bytes) : Parse Object :=
  match skipBlanks s with
  | b :: r =>
    if b = byte '\x7b' then
      match depth with
      | 0 => .error .malformed
      | depth + 1 => readMembers (readValue depth) r
    else .error (unexpected s)
  | [] => .error .truncated

/-- A value or `null`. -/
def optional {α : Type} (value : Bytes → Parse α) (s : Bytes) : Parse (Option α) :=
  match skipBlanks s with
  | b :: r =>
    if b = byte 'n' then (readWord ['u', 'l', 'l'] r).map (none, ·)
    else
      match value (b :: r) with
      | .ok (v, s) => .ok (some v, s)
      | .error f => .error f
  | [] =>
    match value [] with
    | .ok (v, s) => .ok (some v, s)
    | .error f => .error f

/-- A member of an object of strings. -/
def readTextMember (members : Dictionary String String) (s : Bytes) :
    Parse (Dictionary String String) :=
  match readName s with
  | .error f => .error f
  | .ok (name, s) =>
    match readColon s with
    | .error f => .error f
    | .ok s =>
      match expectString s with
      | .ok (v, s) => .ok (Dictionary.put name v members, s)
      | .error f => .error f

/-- An object all of whose members are strings. -/
def expectTexts (s : Bytes) : Parse (Dictionary String String) :=
  match skipBlanks s with
  | b :: r =>
    if b = byte '\x7b' then separated (byte '\x7d') readTextMember (r.length + 1) true [] r
    else .error (unexpected s)
  | [] => .error .truncated

/-! ### Whole texts -/

/-- A reader for a whole text: nothing but blanks may follow. -/
def whole {α : Type} (reader : Bytes → Parse α) (s : Bytes) : Except Failure α :=
  match reader s with
  | .error f => .error f
  | .ok (v, rest) => if (skipBlanks rest).isEmpty then .ok v else .error .malformed

/-- **The value that bytes spell.** -/
def parse (s : Bytes) : Except Failure Value :=
  whole (readValue maxDepth) s

/-- The value that a string spells. -/
def parseText (s : String) : Except Failure Value :=
  parse (Utf8.encode s)

end Json

end ChangeCapture
