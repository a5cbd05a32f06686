import ChangeCapture.Json.Printer
import ChangeCapture.Json.Reader
import ChangeCapture.Timestamp

/-!
# Change records

A record says what changed in the source system: the partition it was read from, its position within
that partition, a topic, an optional key, a payload and an optional timestamp.

As JSON a record is an object with its six fields in a fixed order. Reading takes the fields in any
order, ignores others, lets the key and the timestamp be missing or `null`, and refuses a field that
repeats; it also takes an array of the six values in order.

## Main definitions

* `Record`, `Record.text`, `Record.parse`.
* `partitionKey`: the text that identifies a partition.
-/

namespace ChangeCapture

/-- Identifies a sub-stream of the source: a table, a shard, a log file. -/
abbrev Partition := Json.Object

/-- A position within a partition. -/
abbrev Offset := Json.Object

/-- One change event. -/
structure Record where
  partition : Partition
  offset : Offset
  topic : String
  key : Option Json.Value
  value : Json.Value
  timestamp : Option Timestamp
  deriving DecidableEq, Repr

/-- **The text that identifies a partition**: its compact JSON, in which the names are sorted. -/
def partitionKey (p : Partition) : String :=
  Json.Object.text p

namespace Record

open Json (Failure Parse Value)

/-! ### Writing -/

/-- The fields of a record. -/
inductive Field where
  | partition
  | offset
  | topic
  | key
  | value
  | timestamp
  deriving DecidableEq, Repr

/-- The name of a field. -/
def Field.name : Field → String
  | .partition => "source_partition"
  | .offset => "source_offset"
  | .topic => "topic"
  | .key => "key"
  | .value => "value"
  | .timestamp => "timestamp"

/-- The fields in the order in which they are written. -/
def Field.all : List Field :=
  [.partition, .offset, .topic, .key, .value, .timestamp]

/-- The field of a name. -/
def Field.ofName? (name : String) : Option Field :=
  Field.all.find? fun f => f.name = name

/-- The value that is written for a field. -/
def fieldValue (r : Record) : Field → Value
  | .partition => .object r.partition
  | .offset => .object r.offset
  | .topic => .string r.topic
  | .key => r.key.getD .null
  | .value => r.value
  | .timestamp => match r.timestamp with
    | some t => .string t.text
    | none => .null

/-- The characters of a record's text. -/
def chars (r : Record) : List Char :=
  let field (f : Field) : List Char := Json.quote f.name ++ ':' :: Json.render (r.fieldValue f)
  '\x7b' :: (List.intercalate [','] (Field.all.map field) ++ ['\x7d'])

/-- **The text of a record**, with its fields in order. -/
def text (r : Record) : String :=
  String.ofList r.chars

/-! ### Reading -/

/-- The fields that have been read so far. -/
structure Draft where
  partition : Option Partition := none
  offset : Option Offset := none
  topic : Option String := none
  key : Option (Option Value) := none
  value : Option Value := none
  timestamp : Option (Option Timestamp) := none

/-- Whether a field has been read. -/
def Draft.has (d : Draft) : Field → Bool
  | .partition => d.partition.isSome
  | .offset => d.offset.isSome
  | .topic => d.topic.isSome
  | .key => d.key.isSome
  | .value => d.value.isSome
  | .timestamp => d.timestamp.isSome

/-- The record of a draft; a missing field other than the key and the timestamp is a mismatch. -/
def Draft.record (d : Draft) : Except Failure Record :=
  match d.partition, d.offset, d.topic, d.value with
  | some partition, some offset, some topic, some value =>
    .ok { partition, offset, topic, value
          key := d.key.join, timestamp := d.timestamp.join }
  | _, _, _, _ => .error .mismatch

/-- A timestamp as a string. -/
def readTimestamp (s : Bytes) : Parse Timestamp :=
  match Json.expectString s with
  | .error f => .error f
  | .ok (text, s) =>
    match Timestamp.parse? text with
    | some t => .ok (t, s)
    | none => .error .mismatch

/-- How many levels the values inside a record may nest. -/
def innerDepth : Nat := Json.maxDepth - 1

/-- Reads the value of a field into a draft. -/
def readField (d : Draft) (field : Field) (s : Bytes) : Parse Draft :=
  let keep {α : Type} (set : α → Draft) : Parse α → Parse Draft
    | .ok (v, s) => .ok (set v, s)
    | .error f => .error f
  match field with
  | .partition => keep (fun v => { d with partition := some v }) (Json.expectObject innerDepth s)
  | .offset => keep (fun v => { d with offset := some v }) (Json.expectObject innerDepth s)
  | .topic => keep (fun v => { d with topic := some v }) (Json.expectString s)
  | .key =>
    keep (fun v => { d with key := some v }) (Json.optional (Json.readValue innerDepth) s)
  | .value => keep (fun v => { d with value := some v }) (Json.readValue innerDepth s)
  | .timestamp =>
    keep (fun v => { d with timestamp := some v }) (Json.optional readTimestamp s)

/-- Reads a member of a record's object. -/
def readMember (d : Draft) (s : Bytes) : Parse Draft :=
  match Json.readName s with
  | .error f => .error f
  | .ok (name, s) =>
    match Field.ofName? name with
    | some field =>
      if d.has field then .error .mismatch
      else
        match Json.readColon s with
        | .error f => .error f
        | .ok s => readField d field s
    | none =>
      match Json.readColon s with
      | .error f => .error f
      | .ok s => (Json.skipValue (s.length + 1) s).map (d, ·)

/-- Reads the values of the given fields from an array. -/
def readItems (d : Draft) (first : Bool) : List Field → Bytes → Parse Draft
  | [], s => .ok (d, s)
  | field :: fields, s =>
    match Json.next (Json.byte ']') first s with
    | .error f => .error f
    | .ok (.closed _) => .error .mismatch
    | .ok (.item s) =>
      match readField d field s with
      | .error f => .error f
      | .ok (d, s) => readItems d false fields s

/-- The end of an array that should hold no more items. -/
def readEnd (s : Bytes) : Except Failure Bytes :=
  match Json.skipBlanks s with
  | [] => .error .truncated
  | b :: r => if b = Json.byte ']' then .ok r else .error .malformed

/-- Reads a record, as an object or an array. -/
def read (s : Bytes) : Parse Record :=
  match Json.skipBlanks s with
  | [] => .error .truncated
  | b :: r =>
    if b = Json.byte '\x7b' then
      match Json.separated (Json.byte '\x7d') readMember (r.length + 1) true {} r with
      | .error f => .error f
      | .ok (d, s) => d.record.map (·, s)
    else if b = Json.byte '[' then
      match readItems {} true Field.all r with
      | .error f => .error f
      | .ok (d, s) =>
        match d.record, readEnd s with
        | .error f, _ | _, .error f => .error f
        | .ok r, .ok s => .ok (r, s)
    else .error (Json.unexpected (b :: r))

/-- **The record that a text spells.** -/
def parse (s : String) : Except Failure Record :=
  Json.whole read (Utf8.encode s)

end Record

end ChangeCapture
