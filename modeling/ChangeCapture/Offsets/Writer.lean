import ChangeCapture.Offsets.Key
import ChangeCapture.Storage.Entries

/-!
# Writing positions

A writer keeps the latest position of each partition. To flush, it sets these positions aside as a
snapshot, which stays outstanding until the flush is completed or cancelled. Positions recorded
meanwhile are kept beside it, and after a cancelled flush they win over those of the snapshot.

Each snapshot that leaves the writer for good takes its number with it, so a late completion of an
older flush is told from the completion of the outstanding one.

## Main definitions

* `Positions`, `OffsetWriter`.
* `OffsetWriter.record`, `OffsetWriter.beginFlush`, `OffsetWriter.submit`, `OffsetWriter.complete?`,
  `OffsetWriter.cancelFlush`.
-/

namespace ChangeCapture

/-- The latest position of each partition, under the text that identifies the partition. -/
abbrev Positions := Dictionary String (Partition × Offset)

/-- Sets the position of a partition. -/
def Positions.record (p : Partition) (o : Offset) (positions : Positions) : Positions :=
  Dictionary.put (partitionKey p) (p, o) positions

/-- A writer of positions. -/
structure OffsetWriter where
  format : OffsetFormat
  /-- What was recorded since the last snapshot. -/
  pending : Positions := []
  /-- What the outstanding flush carries. -/
  snapshot : Option Positions := none
  /-- The number of the next flush to be completed or cancelled. -/
  flushId : Nat := 0

/-- The outcome of submitting a snapshot. -/
inductive Submission where
  /-- There is no snapshot, or an empty one. -/
  | nothing
  /-- A position has no bytes; the flush is cancelled. -/
  | refused (error : OffsetError)
  /-- The entries to be written, under the number of the flush. -/
  | submitted (flushId : Nat) (entries : Entries)
  deriving DecidableEq, Repr

namespace OffsetWriter

/-- Records the latest position of a partition. -/
def record (p : Partition) (o : Offset) (w : OffsetWriter) : OffsetWriter :=
  { w with pending := w.pending.record p o }

/-- Whether a snapshot is outstanding. -/
def inProgress (w : OffsetWriter) : Bool :=
  w.snapshot.isSome

/-- **Sets the pending positions aside as a snapshot.** Nothing is begun when nothing is pending; a
snapshot that is outstanding is an error. -/
def beginFlush (w : OffsetWriter) : Except OffsetError (Option OffsetWriter) :=
  match w.snapshot with
  | some _ => .error .flushInProgress
  | none =>
    if w.pending.isEmpty then .ok none
    else .ok (some { w with snapshot := some w.pending, pending := [] })

/-- The entry of a position. -/
def entry (f : OffsetFormat) (position : Partition × Offset) : Except OffsetError (Bytes × Bytes) :=
  match f.storeKey position.1 with
  | .error e => .error e
  | .ok key =>
    match f.storeValue position.2 with
    | .error e => .error e
    | .ok value => .ok (key, value)

/-- The entries of positions, or the first error among them. -/
def entries (f : OffsetFormat) : Positions → Except OffsetError Entries
  | [] => .ok []
  | (_, position) :: rest =>
    match entry f position with
    | .error e => .error e
    | .ok (key, value) =>
      match entries f rest with
      | .error e => .error e
      | .ok es => .ok (Dictionary.put key value es)

/-- **Gives the snapshot up.** Positions recorded after it stay; all others are pending again. -/
def cancelFlush (w : OffsetWriter) : OffsetWriter :=
  match w.snapshot with
  | none => w
  | some snapshot =>
    { w with pending := Dictionary.merge snapshot w.pending, snapshot := none
             flushId := w.flushId + 1 }

/-- **The entries of the snapshot**, to be written in the background. The snapshot stays
outstanding, unless it has no entries or cannot be turned into any. -/
def submit (w : OffsetWriter) : Submission × OffsetWriter :=
  match w.snapshot with
  | none => (.nothing, w)
  | some [] => (.nothing, { w with snapshot := none })
  | some (position :: rest) =>
    match entries w.format (position :: rest) with
    | .error e => (.refused e, w.cancelFlush)
    | .ok es => (.submitted w.flushId es, w)

/-- **Lets the snapshot go**, if it is the one of the given flush. -/
def complete? (flushId : Nat) (w : OffsetWriter) : Option OffsetWriter :=
  match w.snapshot with
  | none => none
  | some _ =>
    if flushId = w.flushId then some { w with snapshot := none, flushId := w.flushId + 1 }
    else none

/-- What is not committed: the pending positions over those of the snapshot. -/
def uncommitted (w : OffsetWriter) : Positions :=
  Dictionary.merge (w.snapshot.getD []) w.pending

end OffsetWriter

end ChangeCapture
