import ChangeCapture.Event
import ChangeCapture.Storage.Planned

/-!
# Background writes

A flush is written by a task of its own, which only sees the entries. It reaches the store in its
first turn; a write that is cancelled before never does. Cancelling a write that waits for the store
keeps it from acting later, but does not undo what it has done. That it acts no more is an assumption
on the store: a store that has accepted a write may also let it land after it was cancelled.

## Main definitions

* `WriteStatus`, `Write`, `Write.isReady`, `Write.turn`.
-/

namespace ChangeCapture

/-- How far a background write is. -/
inductive WriteStatus where
  /-- It has not reached the store. -/
  | submitted
  | pending (call : PendingCall)
  | finished (error : Option OffsetError)
  | cancelled
  deriving DecidableEq, Repr

/-- A background write. -/
structure Write where
  /-- The run that submitted it. -/
  run : Nat
  flushId : Nat
  entries : Entries
  status : WriteStatus := .submitted
  deriving DecidableEq, Repr

/-- What a turn of a write leaves behind. -/
structure WriteTurn where
  write : Write
  store : PlannedStore
  events : List Event := []

namespace Write

/-- Whether a write could go on. -/
def isReady (now : Nat) (w : Write) : Bool :=
  match w.status with
  | .submitted => true
  | .pending call => call.isBack now
  | .finished _ | .cancelled => false

/-- The instant at which a write can go on. -/
def due? (w : Write) : Option Nat :=
  match w.status with
  | .pending call => call.until?
  | .submitted | .finished _ | .cancelled => none

/-- What a write that has come to an end was answered: an error, or none. -/
def result? (w : Write) : Option (Option OffsetError) :=
  match w.status with
  | .finished error => some error
  | .submitted | .pending _ | .cancelled => none

/-- Cancels a write. What has come to an end stays as it is. -/
def cancel (w : Write) : Write :=
  match w.status with
  | .submitted | .pending _ => { w with status := .cancelled }
  | .finished _ | .cancelled => w

/-- The store has answered. -/
def finish (number : Nat) (error : Option OffsetError) (store : PlannedStore) (w : Write) :
    WriteTurn :=
  { write := { w with status := .finished error }, store, events := [.answered number error] }

/-- The call of a write comes back: the store acts, unless the call fails. -/
def comeBack (number : Nat) (error : Option OffsetError) (store : PlannedStore) (w : Write) :
    WriteTurn :=
  match error with
  | some e => w.finish number (some e) store
  | none =>
    let (store, error) := store.set w.entries
    w.finish number error store

/-- A write waits for its call, which may be back already. -/
def waitFor (number now : Nat) (call : PendingCall) (store : PlannedStore) (w : Write) :
    WriteTurn :=
  if call.isBack now then w.comeBack number call.error store
  else { write := { w with status := .pending call }, store }

/-- A write reaches the store. -/
def reach (number now : Nat) (store : PlannedStore) (w : Write) : WriteTurn :=
  let (outcome, store) := store.callSet
  let turn :=
    match outcome with
    | .answers delay error => w.waitFor number now ⟨some (now + delay), error⟩ store
    | .hangs => { write := { w with status := .pending ⟨none, none⟩ }, store }
    | .lands =>
      { write := { w with status := .pending ⟨none, none⟩ }, store := (store.set w.entries).1 }
    | .panics => { write := { w with status := .finished (some .flushAborted) }, store }
  { turn with events := .setInStore number w.entries :: turn.events }

/-- **A turn of a write**, given its number. -/
def turn (number now : Nat) (store : PlannedStore) (w : Write) : WriteTurn :=
  match w.status with
  | .submitted => w.reach number now store
  | .pending call => w.waitFor number now call store
  | .finished _ | .cancelled => { write := w, store }

end Write

end ChangeCapture
