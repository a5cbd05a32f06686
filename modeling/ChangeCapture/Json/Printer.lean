import ChangeCapture.Json.Value
import ChangeCapture.Text.Utf8

/-!
# The compact text of a JSON value

No spaces, members in the order of their names. A string escapes the quote, the backslash and the
control characters below the space and holds everything else verbatim. An integer is written
plainly; a double has the fewest digits that read back, a point or an exponent always, and an
exponent from `10 ^ 16` up and below `10 ^ -5`.

## Main definitions

* `Json.render`: the characters of a value's text.
* `Json.Value.text`: the text of a value as a string.
* `Json.Object.text`: the text of an object.
-/

namespace ChangeCapture

namespace Json

/-- A digit of a numeral in base sixteen, in lower case. -/
def hexDigit (n : Nat) : Char :=
  if n < 10 then Char.ofNat (48 + n) else Char.ofNat (87 + n)

/-- A character inside a string. -/
def escapeChar (c : Char) : List Char :=
  if c = '"' then ['\\', '"']
  else if c = '\\' then ['\\', '\\']
  else if c = '\n' then ['\\', 'n']
  else if c = '\r' then ['\\', 'r']
  else if c = '\t' then ['\\', 't']
  else if c.toNat = 8 then ['\\', 'b']
  else if c.toNat = 12 then ['\\', 'f']
  else if c.toNat < 32 then ['\\', 'u', '0', '0', hexDigit (c.toNat / 16), hexDigit (c.toNat % 16)]
  else [c]

/-- A quoted string. -/
def quote (s : String) : List Char :=
  '"' :: (s.toList.flatMap escapeChar ++ ['"'])

/-- The decimal digits of a natural number. -/
def natDigits (n : Nat) : List Char :=
  Nat.toDigits 10 n

/-- An integer. -/
def intDigits (i : Int) : List Char :=
  match i with
  | .ofNat n => natDigits n
  | .negSucc n => '-' :: natDigits (n + 1)

/-- A decimal exponent with its sign. -/
def exponentDigits (e : Int) : List Char :=
  match e with
  | .ofNat n => '+' :: natDigits n
  | .negSucc n => '-' :: natDigits (n + 1)

/-- The first positive power of ten that is written with an exponent. -/
def positionalDigits : Int := 16

/-- The most zeros, the one before the point included, that a positional fraction starts with. -/
def leadingZeros : Int := 5

/-- **The magnitude of a double**: positional while the point stands among or just before the
digits, with an exponent otherwise. -/
def renderDigits (d : Binary64.Digits) : List Char :=
  let digits := natDigits d.digits
  let point := (digits.length : Int) + d.exponent
  if 0 ≤ d.exponent && point ≤ positionalDigits then
    digits ++ List.replicate d.exponent.toNat '0' ++ ['.', '0']
  else if 0 < point && point ≤ positionalDigits then
    digits.take point.toNat ++ ['.'] ++ digits.drop point.toNat
  else if -leadingZeros < point && point ≤ 0 then
    ['0', '.'] ++ List.replicate (-point).toNat '0' ++ digits
  else
    match digits with
    | [c] => [c, 'e'] ++ exponentDigits (point - 1)
    | digits => digits.take 1 ++ ['.'] ++ digits.drop 1 ++ ['e'] ++ exponentDigits (point - 1)

/-- A double. -/
def renderReal (x : Binary64) : List Char :=
  let sign := if x.negative then ['-'] else []
  if x.mantissa = 0 then sign ++ ['0', '.', '0'] else sign ++ renderDigits x.shortest

/-- A number. -/
def renderNumber : Number → List Char
  | .integer i => intDigits i
  | .real x => renderReal x

/-- **The compact text of a value.** -/
def render : Value → List Char
  | .null => "null".toList
  | .bool true => "true".toList
  | .bool false => "false".toList
  | .number n => renderNumber n
  | .string s => quote s
  | .array [] => ['[', ']']
  | .array (x :: xs) => '[' :: (render x ++ items xs)
  | .object [] => ['{', '}']
  | .object ((k, v) :: ms) => '{' :: (quote k ++ ':' :: (render v ++ members ms))
where
  /-- The items of an array after the first, and its end. -/
  items : List Value → List Char
    | [] => [']']
    | x :: xs => ',' :: (render x ++ items xs)
  /-- The members of an object after the first, and its end. -/
  members : List (String × Value) → List Char
    | [] => ['}']
    | (k, v) :: ms => ',' :: (quote k ++ ':' :: (render v ++ members ms))

/-- The compact text of a value as a string. -/
def Value.text (v : Value) : String :=
  String.ofList (render v)

/-- The compact text of a value as bytes. -/
def Value.bytes (v : Value) : Bytes :=
  Utf8.encodeChars (render v)

/-- The compact text of an object. -/
def Object.text (o : Object) : String :=
  (Value.object o).text

end Json

end ChangeCapture
