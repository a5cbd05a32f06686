import ChangeCapture.Proofs.Offsets.Reading
import ChangeCapture.Storage.Store

/-!
# Reading is pointwise

All partitions of a request are looked up at once, but what is found for one of them does not depend
on the others: a request that is put together from two finds what the two find, one after the other.
Nor does it depend on any entry but the partition's own. The entries of other partitions, and those
of other scopes, may be changed, may be damaged, or may be missing.

## Main definitions

* `OffsetFormat.IsKeyOfOther`: the keys of other partitions and of other scopes.

## Main results

* `OffsetFormat.IsKeyOfOther.ne_keyBytes` — no other partition shares the key of a partition.
* `OffsetFormat.reads_pointwise` — reading is pointwise.
-/

namespace ChangeCapture

namespace OffsetFormat

variable {f : OffsetFormat} {p : Partition} {key : Bytes}

/-- **Whether a key is that of another partition, or that of any partition in another scope.** -/
def IsKeyOfOther (f : OffsetFormat) (p : Partition) (key : Bytes) : Prop :=
  ∃ (g : OffsetFormat) (q : Partition), g.HasBuiltInKeys ∧ IsWhole q ∧
    (g.scope ≠ f.scope ∨ q ≠ p) ∧ g.storeKey q = .ok key

/-- No other partition shares the key of a partition. -/
theorem IsKeyOfOther.ne_keyBytes (h : f.IsKeyOfOther p key) (hp : IsWhole p) :
    key ≠ f.keyBytes p := by
  rintro rfl
  obtain ⟨g, q, hg, hq, hother, hkey⟩ := h
  rw [hg.storeKey_eq, Except.ok.injEq, keyBytes_inj, partitionKey_inj hq hp] at hkey
  exact hother.elim (· hkey.1) (· hkey.2)

/-- What is found for one of several partitions is found for it alone. -/
theorem filter_offsets {offset? offset?' : Partition → Option Offset}
    (h : offset? p = offset?' p) (ps : List Partition) :
    (ps.filterMap fun q => (offset? q).map (q, ·)).filter (fun x => x.1 = p) =
      (ps.filterMap fun q => (offset?' q).map (q, ·)).filter (fun x => x.1 = p) := by
  rw [List.filter_filterMap, List.filter_filterMap]
  refine List.filterMap_congr fun q _ => ?_
  by_cases hq : q = p
  · rw [hq, h]
  · cases offset? q <;> cases offset?' q <;> simp [Option.filter, hq]

/-- **Reading is pointwise.** Whatever a store holds, reading succeeds, and a request that is put
together from two finds, and reports, what the first does and then what the second does. There is an
offset, or none, for each partition, and a request gives those of its partitions in its order, each
with the partition that was asked for and as often as it was; reading one partition gives the offset
of that one. What is found for a partition with whole numbers stays, alone and among others, when
entries of other partitions or of other scopes are changed in any way. -/
theorem reads_pointwise (h : f.HasBuiltInKeys) :
    (∀ (st : Store) (ps qs : List Partition), ∃ found found',
      f.read st.entries ps = .ok found ∧ f.read st.entries qs = .ok found' ∧
      f.read st.entries (ps ++ qs) =
        .ok { offsets := found.offsets ++ found'.offsets
              notices := found.notices ++ found'.notices }) ∧
    (∀ st : Store, ∃ offset? : Partition → Option Offset,
      (∀ ps, (f.read st.entries ps).map FoundOffsets.offsets =
        .ok (ps.filterMap fun p => (offset? p).map (p, ·))) ∧
      ∀ p, (f.read st.entries [p]).map FoundOffsets.offset? = .ok (offset? p)) ∧
    ∀ (st st' : Store) (p : Partition), IsWhole p →
      (∀ key, Dictionary.get? key st.entries ≠ Dictionary.get? key st'.entries →
        f.IsKeyOfOther p key) →
      f.read st'.entries [p] = f.read st.entries [p] ∧
      ∀ ps found found', f.read st.entries ps = .ok found → f.read st'.entries ps = .ok found' →
        found'.offsets.filter (fun x => x.1 = p) = found.offsets.filter (fun x => x.1 = p) := by
  refine ⟨fun st ps qs => ?_, fun st => ?_, fun st st' p hp hothers => ?_⟩
  · refine ⟨_, _, h.read_eq st.entries ps, h.read_eq st.entries qs, ?_⟩
    rw [h.read_eq, List.filterMap_append, List.filterMap_append]
  · refine ⟨f.offsetIn? st.entries, fun ps => ?_, fun p => ?_⟩
    · rw [h.read_eq]
      rfl
    · rw [h.read_eq, Except.map, FoundOffsets.offset?]
      cases hp : f.offsetIn? st.entries p <;> simp [hp]
  · -- The partition's own entry is the same in both stores.
    have hown : Dictionary.get? (f.keyBytes p) st'.entries =
        Dictionary.get? (f.keyBytes p) st.entries := by
      by_contra hne
      exact (hothers _ (Ne.symm hne)).ne_keyBytes hp rfl
    refine ⟨h.read_congr fun q hq => ?_, fun ps found found' hread hread' => ?_⟩
    · rw [List.mem_singleton.mp hq, hown]
    · rw [h.read_eq] at hread hread'
      obtain rfl := Except.ok.inj hread
      obtain rfl := Except.ok.inj hread'
      exact filter_offsets (offsetIn?_congr hown) ps

/-- A damaged entry is mended, and the entry of the same partition in another scope is removed. -/
theorem reads_pointwise_beside_mended_entry :
    let f : OffsetFormat :=
      { scope := "engine", keys := ConverterKind.string.converter
        values := ConverterKind.json.converter }
    let g : OffsetFormat := { f with scope := "archive" }
    let orders : Partition := [("table", .string "orders")]
    let items : Partition := [("table", .string "items")]
    let place : Offset := [("row", .number (.integer 7))]
    let entries : Entries := Dictionary.ofList
      [(f.keyBytes orders, valueBytes place), (f.keyBytes items, [0xFF]),
        (g.keyBytes orders, valueBytes [])]
    let st : Store := .file { path := ⟨"offsets.json"⟩, entries } []
    let mended := Dictionary.put (f.keyBytes items) (valueBytes []) entries
    let st' : Store := .memory (Dictionary.erase (g.keyBytes orders) mended)
    f.read st.entries [orders, items, orders] =
        .ok { offsets := [(orders, place), (orders, place)], notices := [.offsetUnreadable] } ∧
      f.read st'.entries [items, orders] = .ok { offsets := [(items, []), (orders, place)] } ∧
      f.read st'.entries [orders] = f.read st.entries [orders] := by
  intro f g orders items place entries st mended st'
  have hf : f.HasBuiltInKeys := ⟨.string, rfl⟩
  have hg : g.HasBuiltInKeys := ⟨.string, rfl⟩
  have horders : IsWhole orders := ⟨trivial, trivial, trivial⟩
  have hitems : IsWhole items := ⟨trivial, trivial, trivial⟩
  refine ⟨by decide +kernel, by decide +kernel, ?_⟩
  -- What else the entries are does not matter.
  clear_value entries
  refine ((reads_pointwise hf).2.2 st st' orders horders fun key hne => ?_).1
  by_cases hscope : key = g.keyBytes orders
  · exact ⟨g, orders, hg, horders, .inl (by decide), hscope ▸ hg.storeKey_eq orders⟩
  by_cases hpartition : key = f.keyBytes items
  · exact ⟨f, items, hf, hitems, .inr (by decide), hpartition ▸ hf.storeKey_eq items⟩
  · have hentries : st'.entries = Dictionary.erase (g.keyBytes orders) mended := rfl
    rw [hentries, Dictionary.get?_erase, if_neg hscope, Dictionary.get?_put,
      if_neg hpartition] at hne
    exact absurd rfl hne

end OffsetFormat

end ChangeCapture
