import ChangeCapture.Offsets.Reader
import ChangeCapture.Offsets.Write
import ChangeCapture.Offsets.Writer
import ChangeCapture.Schedule

/-!
# A writer at work

A writer, its store and the background writes that it has submitted, in the hands of a host that
flushes when it likes.

## Main definitions

* `Desk`, `Desk.machine`: the writer and the turns of its writes.
* `Desk.record`, `Desk.beginFlush`, `Desk.flush`, `Desk.complete`, `Desk.cancelFlush`,
  `Desk.cancelWrite`: what the host does with the writer.
* `Desk.read`: reading positions, for as long as the store takes.
-/

namespace ChangeCapture

/-- A writer, its store and its writes. The newest event comes first. -/
structure Desk where
  now : Nat := 0
  store : PlannedStore
  writer : OffsetWriter
  writes : List Write := []
  events : List Event := []

namespace Desk

/-! ### Turns -/

/-- Whether the write of a number could go on. -/
def isReady (d : Desk) (i : Nat) : Bool :=
  match d.writes[i]? with
  | some w => w.isReady d.now
  | none => false

/-- A turn of the write of a number. -/
def turn (i : Nat) (d : Desk) : Desk :=
  match d.writes[i]? with
  | none => d
  | some w =>
    let t := w.turn i d.now d.store
    { d with writes := d.writes.set i t.write, store := t.store
             events := t.events.reverse ++ d.events }

/-- **The writes as tasks.** Each takes at most two turns at one instant. -/
def machine : Machine Desk Nat where
  now := Desk.now
  moveTo now d := { d with now }
  tasks d := List.range d.writes.length
  isReady
  due? d i := (d.writes[i]?).bind Write.due?
  turn
  patience d := 2 * d.writes.length + 1

/-! ### What the host does -/

/-- Adds an event. -/
def report (event : Event) (d : Desk) : Desk :=
  { d with events := event :: d.events }

/-- Records a position. -/
def record (p : Partition) (o : Offset) (d : Desk) : Desk :=
  { d with writer := d.writer.record p o }

/-- Begins a flush, and says whether there is anything to flush. -/
def beginFlush (d : Desk) : Except OffsetError Bool × Desk :=
  match d.writer.beginFlush with
  | .error e => (.error e, d.report (.notice .snapshotOutstanding))
  | .ok none => (.ok false, d)
  | .ok (some writer) => (.ok true, { d with writer })

/-- Submits the snapshot to the background, and says under which flush. -/
def flush (d : Desk) : Except OffsetError (Option Nat) × Desk :=
  match d.writer.submit with
  | (.nothing, writer) => (.ok none, { d with writer })
  | (.refused e, writer) =>
    (.error e,
      ({ d with writer }.report (.notice .snapshotUnwritable)).report
        (.answered d.writes.length (some e)))
  | (.submitted flushId entries, writer) =>
    (.ok (some flushId), { d with writer, writes := d.writes ++ [{ run := 0, flushId, entries }] })

/-- Completes a flush, and says whether it was outstanding. -/
def complete (flushId : Nat) (d : Desk) : Bool × Desk :=
  match d.writer.complete? flushId with
  | some writer => (true, { d with writer })
  | none => (false, d.report (.notice .staleCompletion))

/-- Gives the snapshot up. -/
def cancelFlush (d : Desk) : Desk :=
  { d with writer := d.writer.cancelFlush }

/-- Cancels the write of a number. -/
def cancelWrite (i : Nat) (d : Desk) : Desk :=
  { d with writes := d.writes.modify i Write.cancel }

/-- Adds notices, in order. -/
def reportAll (notices : List Notice) (d : Desk) : Desk :=
  notices.foldl (fun d n => d.report (.notice n)) d

/-- Asks the store for keys, and says how the call goes. -/
def ask (keys : List Bytes) (d : Desk) : Outcome × Desk :=
  let (outcome, store) := d.store.callGet
  (outcome, { d with store }.report (.getFromStore keys))

/-- **Reads the committed offsets of partitions**, and waits for the store meanwhile. There is no
answer if the call does not come back. -/
def read (f : OffsetFormat) (ps : List Partition) (t : Timeline Desk Nat) :
    Option (Except OffsetError FoundOffsets) × Timeline Desk Nat :=
  match f.storeKeys ps with
  | .error e => (some (.error e), t)
  | .ok keys =>
    let (outcome, desk) := t.state.ask keys
    let t := t.change machine fun _ => desk
    match outcome with
    | .hangs | .lands | .panics => (none, t)
    | .answers delay error =>
      let t := t.sleep machine delay
      match error with
      | some e => (some (.error e), t)
      | none =>
        let found := f.collect (t.state.store.store.get keys) (ps.zip keys)
        (some (.ok found), t.change machine (reportAll found.notices))

end Desk

end ChangeCapture
