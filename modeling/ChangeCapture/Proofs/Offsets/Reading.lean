import ChangeCapture.Proofs.Offsets.Key

/-!
# Reading positions

What a task reads for a partition depends on the entry under its key and on no other, whatever else
it asks for at the same time.

## Main definitions

* `OffsetFormat.offsetIn?`, `OffsetFormat.noticeIn?`: the offset of a partition in a store's
  entries, and what is reported about it.

## Main results

* `OffsetFormat.offsets_collect`, `OffsetFormat.HasBuiltInKeys.read_eq` — several partitions are
  read one by one.
-/

namespace ChangeCapture

/-- **An entry that is asked for is found**, and as it stands. -/
theorem Entries.get?_select {k : Bytes} {keys : List Bytes} (hk : k ∈ keys) (entries : Entries) :
    Dictionary.get? k (entries.select keys) = Dictionary.get? k entries := by
  have general : ∀ (keys : List Bytes) (old : Entries),
      Dictionary.get? k (Dictionary.merge old
        (keys.filterMap fun k => (Dictionary.get? k entries).map (k, ·))) =
      if k ∈ keys then (Dictionary.get? k entries).or (Dictionary.get? k old)
      else Dictionary.get? k old := by
    intro keys
    induction keys with
    | nil => simp
    | cons k' keys ih =>
      intro old
      by_cases hkk : k = k'
      · subst hkk
        cases hget : Dictionary.get? k entries with
        | none => simp [hget, ih]
        | some v => simp [hget, Dictionary.merge_cons, ih, Dictionary.get?_put]
      · cases hget : Dictionary.get? k' entries with
        | none => simp [hget, ih, hkk]
        | some v => simp [hget, Dictionary.merge_cons, ih, Dictionary.get?_put, hkk]
  rw [select, Dictionary.ofList, general, if_pos hk]
  exact Option.or_none

namespace OffsetFormat

variable {f : OffsetFormat} {m m' : Entries} {p : Partition}

/-- **The offset of a partition** that a reader finds among entries. -/
def offsetIn? (f : OffsetFormat) (m : Entries) (p : Partition) : Option Offset :=
  (f.stored? m (f.keyBytes p)).bind StoredOffset.offset?

/-- The offset of a partition depends on its entry alone. -/
theorem offsetIn?_congr (h : Dictionary.get? (f.keyBytes p) m = Dictionary.get? (f.keyBytes p) m') :
    f.offsetIn? m p = f.offsetIn? m' p := by
  rw [offsetIn?, stored?, h]
  rfl

/-- Look-ups that find the same entries find the same offsets. -/
theorem HasBuiltInKeys.read_congr (h : f.HasBuiltInKeys) {ps : List Partition}
    (hget : ∀ p ∈ ps, Dictionary.get? (f.keyBytes p) m = Dictionary.get? (f.keyBytes p) m') :
    f.read m ps = f.read m' ps := by
  have hsel : m.select (ps.map f.keyBytes) = m'.select (ps.map f.keyBytes) := by
    rw [Entries.select, Entries.select]
    refine congrArg _ (List.filterMap_congr ?_)
    rintro k hk
    obtain ⟨p, hp, rfl⟩ := List.mem_map.mp hk
    rw [hget p hp]
  rw [read, read, h.storeKeys_eq]
  simp only [hsel]

/-- What is reported about the entry of a partition among entries. -/
def noticeIn? (f : OffsetFormat) (m : Entries) (p : Partition) : Option Notice :=
  (f.stored? m (f.keyBytes p)).bind StoredOffset.notice?

/-- Partitions that are looked up together are looked up one by one. -/
theorem collect_eq (f : OffsetFormat) (m : Entries) (ps : List Partition) :
    f.collect (m.select (ps.map f.keyBytes)) (ps.map fun p => (p, f.keyBytes p)) =
      { offsets := ps.filterMap fun p => (f.offsetIn? m p).map (p, ·)
        notices := ps.filterMap (f.noticeIn? m) } := by
  have hstored : ∀ p ∈ ps, f.stored? (m.select (ps.map f.keyBytes)) (f.keyBytes p) =
      f.stored? m (f.keyBytes p) := by
    intro p hp
    rw [stored?, stored?, Entries.get?_select (List.mem_map_of_mem hp)]
  rw [collect, List.filterMap_map, List.filterMap_map, FoundOffsets.mk.injEq]
  constructor
  · refine List.filterMap_congr fun p hp => ?_
    dsimp only [Function.comp]
    rw [hstored p hp]
    rfl
  · refine List.filterMap_congr fun p hp => ?_
    dsimp only [Function.comp]
    rw [hstored p hp]
    rfl

/-- **What is read**: the offsets of the partitions, one by one in the order in which they were
asked for, and what is reported about their entries. -/
theorem HasBuiltInKeys.read_eq (h : f.HasBuiltInKeys) (m : Entries) (ps : List Partition) :
    f.read m ps = .ok { offsets := ps.filterMap fun p => (f.offsetIn? m p).map (p, ·)
                        notices := ps.filterMap (f.noticeIn? m) } := by
  rw [read, h.storeKeys_eq]
  dsimp only
  rw [← List.map_prod_left_eq_zip, collect_eq]

end OffsetFormat

end ChangeCapture
