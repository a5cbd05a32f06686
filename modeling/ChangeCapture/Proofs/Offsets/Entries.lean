import ChangeCapture.Proofs.Offsets.Key
import ChangeCapture.Proofs.Offsets.Writer

/-!
# The entries of positions

A snapshot is written as entries: one for each partition, under its key, with the bytes of its
offset. Under built-in converters every snapshot has entries, and they are determined by the
positions that were recorded.

## Main results

* `OffsetFormat.HasBuiltInKeys.length_entries` — there are as many entries as positions.
* `OffsetFormat.get?_entriesOf` — the entry of a partition has the bytes of its offset.
* `OffsetFormat.mem_entriesOf_recordAll` — the entries of recorded positions are those of the latest
  ones.
-/

namespace ChangeCapture

namespace OffsetFormat

variable {f : OffsetFormat}

/-! ### Entries under built-in keys -/

section Keys

variable {positions : Positions} {es : Entries}

/-- The entry of the first position goes among those of the others. -/
theorem HasBuiltInKeys.entries_cons (h : f.HasBuiltInKeys) {k : String} {p : Partition} {o : Offset}
    (hes : OffsetWriter.entries f ((k, p, o) :: positions) = .ok es) :
    ∃ value rest, OffsetWriter.entries f positions = .ok rest ∧
      es = Dictionary.put (f.keyBytes p) value rest := by
  rw [OffsetWriter.entries, OffsetWriter.entry, h.storeKey_eq] at hes
  cases hv : f.storeValue o with
  | error e => simp [hv] at hes
  | ok value =>
    cases hr : OffsetWriter.entries f positions with
    | error e => simp [hv, hr] at hes
    | ok rest =>
      simp only [hv, hr, Except.ok.injEq] at hes
      exact ⟨value, rest, rfl, hes.symm⟩

/-- Every entry stands under the key of a position. -/
theorem HasBuiltInKeys.exists_of_mem_entries (h : f.HasBuiltInKeys)
    (hes : OffsetWriter.entries f positions = .ok es) {e : Bytes × Bytes} (he : e ∈ es) :
    ∃ x ∈ positions, e.1 = f.keyBytes x.2.1 := by
  induction positions generalizing es with
  | nil =>
    obtain rfl := Except.ok.inj hes
    cases he
  | cons x positions ih =>
    obtain ⟨value, rest, hrest, rfl⟩ := h.entries_cons hes
    rcases Dictionary.mem_put he with rfl | he
    · exact ⟨x, List.mem_cons_self, rfl⟩
    · obtain ⟨y, hy, heq⟩ := ih hrest he
      exact ⟨y, List.mem_cons_of_mem _ hy, heq⟩

/-- **There are as many entries as positions**: no two of them stand under one key. -/
theorem HasBuiltInKeys.length_entries (h : f.HasBuiltInKeys) (hv : positions.Valid)
    (hes : OffsetWriter.entries f positions = .ok es) : es.length = positions.length := by
  induction positions generalizing es with
  | nil =>
    obtain rfl := Except.ok.inj hes
    rfl
  | cons x positions ih =>
    obtain ⟨hlt, hsorted⟩ := Dictionary.sorted_cons.mp hv.sorted
    obtain ⟨value, rest, hrest, rfl⟩ := h.entries_cons hes
    have hkeyed := fun y hy => hv.keyed y (List.mem_cons_of_mem x hy)
    rw [Dictionary.length_put, ih ⟨hsorted, hkeyed⟩ hrest, List.length_cons]
    intro e he heq
    obtain ⟨y, hy, hkey⟩ := h.exists_of_mem_entries hrest he
    have htext : y.1 = x.1 := by
      rw [hkeyed y hy, hv.keyed x List.mem_cons_self]
      exact keyBytes_eq_iff.mp (hkey.symm.trans heq)
    exact absurd (hlt y hy) (htext ▸ String.lt_irrefl _)

end Keys

/-! ### Entries under built-in converters -/

/-- The entries of positions under any built-in converters. -/
def entriesOf (f : OffsetFormat) (positions : Positions) : Entries :=
  positions.foldr (fun e es => Dictionary.put (f.keyBytes e.2.1) (valueBytes e.2.2) es) []

/-- **Every snapshot has entries.** -/
theorem entries_eq (h : f.IsBuiltIn) (positions : Positions) :
    OffsetWriter.entries f positions = .ok (f.entriesOf positions) := by
  induction positions with
  | nil => rfl
  | cons e positions ih =>
    obtain ⟨k, p, o⟩ := e
    rw [OffsetWriter.entries, OffsetWriter.entry, storeKey_eq h, storeValue_eq h, ih]
    rfl

/-- Entries are sorted. -/
theorem sorted_entriesOf (f : OffsetFormat) (positions : Positions) :
    Dictionary.Sorted (f.entriesOf positions) := by
  induction positions with
  | nil => trivial
  | cons e positions ih => exact ih.put

/-- Every entry is that of a position. -/
theorem exists_of_mem_entriesOf {positions : Positions} {e : Bytes × Bytes}
    (he : e ∈ f.entriesOf positions) : ∃ x ∈ positions, e.1 = f.keyBytes x.2.1 := by
  induction positions with
  | nil => cases he
  | cons x positions ih =>
    rcases Dictionary.mem_put he with rfl | he
    · exact ⟨x, List.mem_cons_self, rfl⟩
    · obtain ⟨y, hy, heq⟩ := ih he
      exact ⟨y, List.mem_cons_of_mem _ hy, heq⟩

/-- **The entry of a partition** has the bytes of its offset. -/
theorem get?_entriesOf {positions : Positions} (h : ∀ e ∈ positions, e.1 = partitionKey e.2.1)
    (p : Partition) :
    Dictionary.get? (f.keyBytes p) (f.entriesOf positions) =
      (Dictionary.get? (partitionKey p) positions).map fun x => valueBytes x.2 := by
  induction positions with
  | nil => rfl
  | cons e positions ih =>
    obtain ⟨k, q, o⟩ := e
    have hk : k = partitionKey q := h _ List.mem_cons_self
    change Dictionary.get? (f.keyBytes p)
      (Dictionary.put (f.keyBytes q) (valueBytes o) (f.entriesOf positions)) = _
    rw [Dictionary.get?_put, Dictionary.get?_cons,
      ih fun e he => h e (List.mem_cons_of_mem _ he), hk]
    by_cases hp : partitionKey p = partitionKey q
    · rw [if_pos (keyBytes_eq_iff.mpr hp), if_pos hp]
      rfl
    · rw [if_neg (mt keyBytes_eq_iff.mp hp), if_neg hp]

/-- The entry of a partition among recorded positions is that of the latest one. -/
theorem get?_entriesOf_recordAll (newer : List (Partition × Offset)) (p : Partition) :
    Dictionary.get? (f.keyBytes p) (f.entriesOf (Positions.recordAll [] newer)) =
      (Positions.latest? (partitionKey p) newer).map fun x => valueBytes x.2 := by
  rw [get?_entriesOf (Positions.Valid.nil.recordAll newer).keyed, Positions.get?_recordAll]
  exact congrArg _ (Option.or_none)

/-- **The entries of recorded positions are those of the latest ones**, if the partitions have whole
numbers. -/
theorem mem_entriesOf_recordAll {newer : List (Partition × Offset)} (hw : ∀ x ∈ newer, IsWhole x.1)
    {key value : Bytes} :
    (key, value) ∈ f.entriesOf (Positions.recordAll [] newer) ↔
      ∃ p o, (newer.find? fun x => x.1 = p) = some (p, o) ∧ key = f.keyBytes p ∧
        value = valueBytes o := by
  have hlatest : ∀ p, IsWhole p →
      Positions.latest? (partitionKey p) newer = newer.find? fun x => x.1 = p := fun p hp =>
    Positions.latest?_partitionKey fun x hx => partitionKey_inj (hw x hx) hp
  have hsorted := f.sorted_entriesOf (Positions.recordAll [] newer)
  constructor
  · intro hm
    obtain ⟨e, -, rfl⟩ := exists_of_mem_entriesOf hm
    have hget := hsorted.get?_eq_some_iff.mpr hm
    rw [get?_entriesOf_recordAll, Option.map_eq_some_iff] at hget
    obtain ⟨⟨p, o⟩, hfound, rfl⟩ := hget
    have hkey : partitionKey p = partitionKey e.2.1 := by
      have := List.find?_some hfound
      simpa using this
    refine ⟨p, o, ?_, keyBytes_eq_iff.mpr hkey.symm, rfl⟩
    rw [← hlatest p (hw _ (List.mem_of_find?_eq_some hfound)), hkey]
    exact hfound
  · rintro ⟨p, o, hfound, rfl, rfl⟩
    refine hsorted.get?_eq_some_iff.mp ?_
    rw [get?_entriesOf_recordAll, hlatest p (hw _ (List.mem_of_find?_eq_some hfound)), hfound]
    rfl

end OffsetFormat

end ChangeCapture
