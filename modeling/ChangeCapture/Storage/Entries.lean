import ChangeCapture.Dictionary
import ChangeCapture.Text.Utf8

/-!
# Entries of a store

A store holds bytes under keys of bytes. Writing adds entries and replaces those whose key is there.

## Main definitions

* `Entries`, `Entries.select`.
-/

namespace ChangeCapture

/-- What a store holds, in the order of the keys. -/
abbrev Entries := Dictionary Bytes Bytes

namespace Entries

/-- The entries under the given keys; a key without an entry is left out. -/
def select (keys : List Bytes) (entries : Entries) : Entries :=
  Dictionary.ofList (keys.filterMap fun k => (Dictionary.get? k entries).map (k, ·))

end Entries

end ChangeCapture
