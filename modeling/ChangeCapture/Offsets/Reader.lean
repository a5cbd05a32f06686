import ChangeCapture.Notice
import ChangeCapture.Offsets.Key
import ChangeCapture.Storage.Entries

/-!
# Reading positions

A reader looks up the committed offsets of partitions. A partition without an entry, or with an
entry of `null`, has none. An entry that is no object, or no JSON at all, is reported and counts as
none; it never keeps the other partitions from being read.

## Main definitions

* `StoredOffset`, `OffsetFormat.decode`: what the bytes of an entry say.
* `OffsetFormat.collect`: the offsets of partitions among the entries of a store.
-/

namespace ChangeCapture

/-- What the bytes of an entry say. -/
inductive StoredOffset where
  | offset (o : Offset)
  /-- A stored `null`. -/
  | nothing
  | notObject
  | unreadable
  deriving DecidableEq, Repr

namespace StoredOffset

/-- What a value says as an offset. -/
def ofValue : Json.Value → StoredOffset
  | .object o => .offset o
  | .null => .nothing
  | _ => .notObject

/-- The offset, if there is one. -/
def offset? : StoredOffset → Option Offset
  | .offset o => some o
  | _ => none

/-- What is reported about an entry. -/
def notice? : StoredOffset → Option Notice
  | .offset _ | .nothing => none
  | .notObject => some .offsetNotObject
  | .unreadable => some .offsetUnreadable

end StoredOffset

/-- What was read: the offsets found, in the order of the request, and what is reported. -/
structure FoundOffsets where
  offsets : List (Partition × Offset) := []
  notices : List Notice := []
  deriving DecidableEq, Repr

/-- What was found for the last partition of a request. -/
def FoundOffsets.offset? (found : FoundOffsets) : Option Offset :=
  found.offsets.getLast?.map Prod.snd

namespace OffsetFormat

/-- **What the bytes of an entry say.** A text is read once more, as the JSON that it holds. -/
def decode (f : OffsetFormat) (bytes : Bytes) : StoredOffset :=
  match f.values.fromBytes bytes with
  | .error _ => .unreadable
  | .ok (.string text) =>
    match Json.parseText text with
    | .ok v => .ofValue v
    | .error _ => .unreadable
  | .ok v => .ofValue v

/-- What the entry under a key says, if there is one. -/
def stored? (f : OffsetFormat) (found : Entries) (key : Bytes) : Option StoredOffset :=
  (Dictionary.get? key found).map f.decode

/-- **The offsets of partitions**, each given with its key, among the entries that a store found. -/
def collect (f : OffsetFormat) (found : Entries) (request : List (Partition × Bytes)) :
    FoundOffsets :=
  { offsets := request.filterMap fun (p, key) =>
      ((f.stored? found key).bind StoredOffset.offset?).map (p, ·)
    notices := request.filterMap fun (_, key) =>
      (f.stored? found key).bind StoredOffset.notice? }

/-- The offsets of partitions among all entries of a store. -/
def read (f : OffsetFormat) (entries : Entries) (ps : List Partition) :
    Except OffsetError FoundOffsets :=
  match f.storeKeys ps with
  | .error e => .error e
  | .ok keys => .ok (f.collect (entries.select keys) (ps.zip keys))

end OffsetFormat

end ChangeCapture
