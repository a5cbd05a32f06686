import ChangeCapture.Offsets.Writer
import ChangeCapture.Proofs.Dictionary
import Mathlib.Data.String.Basic

/-!
# What a writer's operations do

A writer is looked at through one look-up: the pending position of a partition, or else the one that
the outstanding snapshot carries. Recording changes this look-up for one partition; beginning,
submitting and cancelling a flush leave it alone; completing one leaves what is pending.

## Main results

* `Positions.Valid`, `OffsetWriter.Valid` — positions are sorted and stand under the text of their
  own partition, and an outstanding snapshot is not empty.
* `OffsetWriter.get?_uncommitted` — the look-up is that of what is not committed.
* `OffsetWriter.uncommitted?_record`, `OffsetWriter.uncommitted?_cancelFlush`, … — the look-up after
  each operation.
-/

namespace ChangeCapture

/-! ### Positions -/

/-- Positions are sorted, and each stands under the text of its own partition. -/
structure Positions.Valid (positions : Positions) : Prop where
  sorted : Dictionary.Sorted positions
  keyed : ∀ e ∈ positions, e.1 = partitionKey e.2.1

namespace Positions

/-- No positions. -/
theorem Valid.nil : Valid [] :=
  ⟨trivial, fun _ h => absurd h List.not_mem_nil⟩

/-- Recording keeps positions in order. -/
theorem Valid.record {positions : Positions} (h : positions.Valid) (p : Partition) (o : Offset) :
    (positions.record p o).Valid := by
  refine ⟨h.sorted.put, fun e he => ?_⟩
  rcases Dictionary.mem_put he with rfl | he
  · rfl
  · exact h.keyed e he

/-- Recording sets one position and leaves all others. -/
theorem get?_record (k : String) (positions : Positions) (p : Partition) (o : Offset) :
    Dictionary.get? k (positions.record p o) =
      if k = partitionKey p then some (p, o) else Dictionary.get? k positions :=
  Dictionary.get?_put _ _ _ _

/-- Merging keeps positions in order. -/
theorem Valid.merge {old new : Positions} (ho : old.Valid) (hn : new.Valid) :
    Valid (Dictionary.merge old new) := by
  refine ⟨ho.sorted.merge new, fun (k, e) he => ?_⟩
  have hget := (ho.sorted.merge new).get?_eq_some_iff.mpr he
  rw [Dictionary.get?_merge k old hn.sorted] at hget
  cases hk : Dictionary.get? k new with
  | some e' =>
    rw [hk, Option.some_or, Option.some.injEq] at hget
    exact hget ▸ hn.keyed (k, e') (Dictionary.mem_of_get?_eq_some hk)
  | none =>
    rw [hk, Option.none_or] at hget
    exact ho.keyed (k, e) (Dictionary.mem_of_get?_eq_some hget)

/-- Positions of which some list is recorded, the newest first. -/
def recordAll (positions : Positions) (newer : List (Partition × Offset)) : Positions :=
  newer.foldr (fun x positions => positions.record x.1 x.2) positions

/-- The latest of some positions with a given text, the newest given first. -/
def latest? (k : String) (positions : List (Partition × Offset)) : Option (Partition × Offset) :=
  positions.find? fun x => partitionKey x.1 = k

/-- The newest position comes first. -/
theorem latest?_cons (k : String) (x : Partition × Offset) (positions : List (Partition × Offset)) :
    latest? k (x :: positions) = if k = partitionKey x.1 then some x else latest? k positions := by
  rw [latest?, List.find?_cons]
  by_cases hk : k = partitionKey x.1
  · simp [hk]
  · simp [hk, Ne.symm hk, latest?]

/-- Recording several positions keeps them in order. -/
theorem Valid.recordAll {positions : Positions} (h : positions.Valid)
    (newer : List (Partition × Offset)) :
    (positions.recordAll newer).Valid := by
  induction newer with
  | nil => exact h
  | cons x newer ih => exact ih.record x.1 x.2

/-- **Of several recorded positions the newest stays.** -/
theorem get?_recordAll (k : String) (positions : Positions) (newer : List (Partition × Offset)) :
    Dictionary.get? k (positions.recordAll newer) =
      (latest? k newer).or (Dictionary.get? k positions) := by
  induction newer with
  | nil => rfl
  | cons x newer ih =>
    change Dictionary.get? k ((positions.recordAll newer).record x.1 x.2) = _
    rw [get?_record, ih, latest?_cons]
    by_cases hk : k = partitionKey x.1
    · rw [if_pos hk, if_pos hk]
      rfl
    · rw [if_neg hk, if_neg hk]

/-- Partitions with whole numbers are looked for by themselves. -/
theorem latest?_partitionKey {p : Partition} {positions : List (Partition × Offset)}
    (h : ∀ x ∈ positions, partitionKey x.1 = partitionKey p ↔ x.1 = p) :
    latest? (partitionKey p) positions = positions.find? fun x => x.1 = p := by
  induction positions with
  | nil => rfl
  | cons x positions ih =>
    have ih := ih fun y hy => h y (List.mem_cons_of_mem _ hy)
    rw [latest?] at ih ⊢
    rw [List.find?_cons, List.find?_cons, ih]
    by_cases hx : x.1 = p
    · simp [hx]
    · have hk : partitionKey x.1 ≠ partitionKey p := fun hk => hx ((h x List.mem_cons_self).mp hk)
      simp [hx, hk]

end Positions

/-! ### Writers -/

/-- The positions of a writer are in order, and an outstanding snapshot is not empty. -/
structure OffsetWriter.Valid (w : OffsetWriter) : Prop where
  pending : w.pending.Valid
  snapshot : ∀ s, w.snapshot = some s → Positions.Valid s ∧ s ≠ []

namespace OffsetWriter

variable {w w' : OffsetWriter}

/-- What is not committed under the text of a partition: what is pending, or else what the
outstanding snapshot carries. -/
def uncommitted? (w : OffsetWriter) (k : String) : Option (Partition × Offset) :=
  (Dictionary.get? k w.pending).or (Dictionary.get? k (w.snapshot.getD []))

/-- **The look-up is that of the uncommitted positions.** -/
theorem get?_uncommitted (h : w.Valid) (k : String) :
    Dictionary.get? k w.uncommitted = w.uncommitted? k :=
  Dictionary.get?_merge k _ h.pending.sorted

/-- Nothing is recorded in a new writer. -/
theorem Valid.new (f : OffsetFormat) : Valid { format := f } :=
  ⟨.nil, fun _ h => by cases h⟩

/-! ### Recording -/

/-- Recording keeps a writer in order. -/
theorem Valid.record (h : w.Valid) (p : Partition) (o : Offset) : (w.record p o).Valid :=
  ⟨Positions.Valid.record h.pending p o, h.snapshot⟩

/-- **Recording** sets the position of one partition. -/
theorem uncommitted?_record (w : OffsetWriter) (p : Partition) (o : Offset) (k : String) :
    (w.record p o).uncommitted? k =
      if k = partitionKey p then some (p, o) else w.uncommitted? k := by
  rw [uncommitted?, record, Positions.get?_record]
  split
  · rfl
  · rfl

/-! ### Beginning a flush -/

/-- What it takes to begin a flush, and what it leaves. -/
theorem beginFlush_eq_ok_some (h : w.beginFlush = .ok (some w')) :
    w.snapshot = none ∧ w.pending ≠ [] ∧
      w' = { w with snapshot := some w.pending, pending := [] } := by
  rw [beginFlush] at h
  cases hs : w.snapshot with
  | some s => simp [hs] at h
  | none =>
    cases hp : w.pending with
    | nil => simp [hs, hp] at h
    | cons e es =>
      simp only [hs, hp, List.isEmpty_cons, Bool.false_eq_true, if_false, Except.ok.injEq,
        Option.some.injEq] at h
      exact ⟨rfl, List.cons_ne_nil _ _, h.symm⟩

/-- A flush can be begun if something is pending, and none is outstanding. -/
theorem exists_beginFlush (hs : w.snapshot = none) (hp : w.pending ≠ []) :
    ∃ w', w.beginFlush = .ok (some w') := by
  obtain ⟨e, rest, hpending⟩ := List.exists_cons_of_ne_nil hp
  rw [beginFlush, hs, hpending]
  exact ⟨_, rfl⟩

/-- Beginning a flush keeps a writer in order. -/
theorem Valid.beginFlush (h : w.Valid) (hb : w.beginFlush = .ok (some w')) : w'.Valid := by
  obtain ⟨-, hne, rfl⟩ := beginFlush_eq_ok_some hb
  refine ⟨.nil, fun s hs => ?_⟩
  rw [Option.some.injEq] at hs
  exact hs ▸ ⟨h.pending, hne⟩

/-- **Beginning a flush** commits nothing. -/
theorem uncommitted?_beginFlush (hb : w.beginFlush = .ok (some w')) (k : String) :
    w'.uncommitted? k = w.uncommitted? k := by
  obtain ⟨hs, -, rfl⟩ := beginFlush_eq_ok_some hb
  simp [uncommitted?, hs]

/-! ### Cancelling a flush -/

/-- What cancelling leaves, if a snapshot is outstanding. -/
theorem cancelFlush_eq {s : Positions} (hs : w.snapshot = some s) :
    w.cancelFlush =
      { w with
        pending := Dictionary.merge s w.pending
        snapshot := none
        flushId := w.flushId + 1 } := by
  rw [cancelFlush, hs]

/-- Without an outstanding snapshot, cancelling changes nothing. -/
theorem cancelFlush_of_none (hs : w.snapshot = none) : w.cancelFlush = w := by
  rw [cancelFlush, hs]

/-- Cancelling keeps a writer in order. -/
theorem Valid.cancelFlush (h : w.Valid) : w.cancelFlush.Valid := by
  cases hs : w.snapshot with
  | none => rwa [cancelFlush_of_none hs]
  | some s =>
    rw [cancelFlush_eq hs]
    exact ⟨(h.snapshot s hs).1.merge h.pending, fun _ hs' => by cases hs'⟩

/-- **Cancelling a flush** commits nothing. -/
theorem uncommitted?_cancelFlush (h : w.Valid) (k : String) :
    w.cancelFlush.uncommitted? k = w.uncommitted? k := by
  cases hs : w.snapshot with
  | none => rw [cancelFlush_of_none hs]
  | some s =>
    rw [cancelFlush_eq hs]
    simp [uncommitted?, hs, Dictionary.get?_merge k s h.pending.sorted]

/-! ### Submitting a flush -/

/-- **What submitting leads to.** A snapshot of a valid writer is submitted as it stands, or cannot
be written and is cancelled. -/
theorem submit_cases (h : w.Valid) :
    (w.snapshot = none ∧ w.submit = (.nothing, w)) ∨
    (∃ s e, w.snapshot = some s ∧ entries w.format s = .error e ∧
      w.submit = (.refused e, w.cancelFlush)) ∨
    (∃ s es, w.snapshot = some s ∧ entries w.format s = .ok es ∧
      w.submit = (.submitted w.flushId es, w)) := by
  cases hs : w.snapshot with
  | none => exact .inl ⟨rfl, by simp [submit, hs]⟩
  | some s =>
    cases s with
    | nil => exact absurd rfl (h.snapshot [] hs).2
    | cons e rest =>
      right
      cases he : entries w.format (e :: rest) with
      | error err => exact .inl ⟨_, err, rfl, he, by simp [submit, hs, he]⟩
      | ok es => exact .inr ⟨_, es, rfl, he, by simp [submit, hs, he]⟩

/-- Submitting leaves the writer, or cancels. -/
theorem submit_snd (h : w.Valid) :
    w.submit.2 = w ∨ (∃ s e, w.snapshot = some s ∧ w.submit = (.refused e, w.cancelFlush)) := by
  obtain ⟨-, hs⟩ | ⟨s, e, hsnap, -, hs⟩ | ⟨s, es, -, -, hs⟩ := submit_cases h
  · exact .inl (by rw [hs])
  · exact .inr ⟨s, e, hsnap, hs⟩
  · exact .inl (by rw [hs])

/-- Submitting keeps a writer in order. -/
theorem Valid.submit (h : w.Valid) : w.submit.2.Valid := by
  obtain hs | ⟨-, e, -, hs⟩ := submit_snd h
  · rwa [hs]
  · rw [hs]
    exact h.cancelFlush

/-- **Submitting a flush** commits nothing, whether or not it can be written. -/
theorem uncommitted?_submit (h : w.Valid) (k : String) :
    w.submit.2.uncommitted? k = w.uncommitted? k := by
  obtain hs | ⟨-, e, -, hs⟩ := submit_snd h
  · rw [hs]
  · rw [hs]
    exact uncommitted?_cancelFlush h k

/-! ### Completing a flush -/

/-- What it takes to complete a flush, and what it leaves. -/
theorem complete?_eq_some {id : Nat} (h : w.complete? id = some w') :
    ∃ s, w.snapshot = some s ∧ id = w.flushId ∧
      w' = { w with snapshot := none, flushId := w.flushId + 1 } := by
  rw [complete?] at h
  cases hs : w.snapshot with
  | none => simp [hs] at h
  | some s =>
    by_cases hid : id = w.flushId
    · simp only [hs, hid, if_true, Option.some.injEq] at h
      exact ⟨s, rfl, hid, h.symm⟩
    · simp [hs, hid] at h

/-- The outstanding flush is completed under its own number. -/
theorem complete?_flushId {s : Positions} (hs : w.snapshot = some s) :
    w.complete? w.flushId = some { w with snapshot := none, flushId := w.flushId + 1 } := by
  rw [complete?, hs]
  exact if_pos rfl

/-- Completing keeps a writer in order. -/
theorem Valid.complete? {id : Nat} (h : w.Valid) (hc : w.complete? id = some w') : w'.Valid := by
  obtain ⟨s, -, -, rfl⟩ := complete?_eq_some hc
  exact ⟨h.pending, fun _ hs => by cases hs⟩

/-- **Completing a flush** leaves what is pending. -/
theorem uncommitted?_complete? {id : Nat} (hc : w.complete? id = some w') (k : String) :
    w'.uncommitted? k = Dictionary.get? k w.pending := by
  obtain ⟨s, -, -, rfl⟩ := complete?_eq_some hc
  simp [uncommitted?]

end OffsetWriter

end ChangeCapture
