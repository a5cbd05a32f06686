import ChangeCapture.Error
import ChangeCapture.Json.Printer
import ChangeCapture.Text.Blank

/-!
# Converters

A converter turns a JSON value into the bytes that a store holds and back. Two are built in: `json`
writes compact text and reads any JSON, `string` writes a string verbatim and anything else as
compact text, and reads every text as a string.

## Main definitions

* `ConverterKind`, `ConverterKind.parse?`: the built-in converters and their names.
* `Converter`, `ConverterKind.converter`: the two directions as functions.
* `Converter.refusing`: a converter that does not write everything.
-/

namespace ChangeCapture

/-- The two directions of a conversion. -/
structure Converter where
  toBytes : Json.Value → Except OffsetError Bytes
  fromBytes : Bytes → Except OffsetError Json.Value

/-- The built-in converters. -/
inductive ConverterKind where
  | string
  | json
  deriving DecidableEq, Repr

namespace ConverterKind

/-- The name of a converter. -/
def name : ConverterKind → String
  | .string => "string"
  | .json => "json"

/-- The converter of a name, in any mix of ASCII cases and with blanks around it. -/
def parse? (text : String) : Option ConverterKind :=
  let text := lowerAscii (trim text)
  if text = "string" then some .string
  else if text = "json" then some .json
  else none

/-- The bytes of a value. -/
def toBytes : ConverterKind → Json.Value → Bytes
  | .string, .string s => Utf8.encode s
  | _, v => v.bytes

/-- The value of bytes. -/
def fromBytes : ConverterKind → Bytes → Except OffsetError Json.Value
  | .string, s =>
    match Utf8.decode s with
    | .ok text => .ok (.string text)
    | .error fault => .error (.corrupt (.notText fault))
  | .json, s =>
    match Json.parse s with
    | .ok v => .ok v
    | .error failure => .error (.serialization failure)

/-- The converter of a kind. Writing never fails. -/
def converter (kind : ConverterKind) : Converter where
  toBytes v := .ok (kind.toBytes v)
  fromBytes := kind.fromBytes

end ConverterKind

/-- Whether a text holds a word. -/
def holdsWord (word : List Char) : List Char → Bool
  | [] => word.isEmpty
  | c :: cs => word.isPrefixOf (c :: cs) || holdsWord word cs

/-- A JSON converter that refuses to write a value whose text contains a word. -/
def Converter.refusing (word reason : String) : Converter where
  toBytes v :=
    if holdsWord word.toList (Json.render v) then .error (.corrupt (.reported reason))
    else .ok v.bytes
  fromBytes := ConverterKind.json.fromBytes

end ChangeCapture
