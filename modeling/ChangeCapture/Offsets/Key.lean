import ChangeCapture.Converter
import ChangeCapture.Record

/-!
# Keys of positions in a store

Several connectors may share one store: the key of a partition is the array of the connector's scope
and the partition, so that no two scopes meet.

## Main definitions

* `OffsetFormat`: the scope of a connector and the converters of its keys and values.
* `OffsetFormat.storeKey`, `OffsetFormat.storeValue`.
-/

namespace ChangeCapture

/-- How the positions of one connector stand in a store. -/
structure OffsetFormat where
  /-- Tells the connector from others with the same store. -/
  scope : String
  keys : Converter
  values : Converter

namespace OffsetFormat

/-- The value that a converter turns into the key of a partition. -/
def keyValue (scope : String) (p : Partition) : Json.Value :=
  .array [.string scope, .object p]

/-- The key of a partition. -/
def storeKey (f : OffsetFormat) (p : Partition) : Except OffsetError Bytes :=
  f.keys.toBytes (keyValue f.scope p)

/-- The bytes of an offset. -/
def storeValue (f : OffsetFormat) (o : Offset) : Except OffsetError Bytes :=
  f.values.toBytes (.object o)

/-- The keys of several partitions, or the first error among them. -/
def storeKeys (f : OffsetFormat) : List Partition → Except OffsetError (List Bytes)
  | [] => .ok []
  | p :: ps =>
    match f.storeKey p with
    | .error e => .error e
    | .ok key =>
      match storeKeys f ps with
      | .error e => .error e
      | .ok keys => .ok (key :: keys)

end OffsetFormat

end ChangeCapture
