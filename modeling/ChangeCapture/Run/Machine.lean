import ChangeCapture.Run.Step
import ChangeCapture.Schedule

/-!
# Hosts in virtual time

Runs, background writes and waiters take turns on one thread. A run goes on until it has to wait; a
write goes to the store and then waits for its answer; a waiter looks.

## Main definitions

* `Host.machine`: the workers of a host and their turns.
* `Host.provide`, `Host.abort`: what a host is asked for, beside `Host.request` and
  `Host.startWaiter`.
-/

namespace ChangeCapture

namespace Host

/-! ### What a host is asked for -/

/-- Adds what a later poll will give. -/
def provide (result : Polled) (h : Host) : Host :=
  { h with feed := h.feed ++ [result] }

/-- Drops a run in its next turn, unless it is over by then. -/
def abort (r : Nat) (h : Host) : Host :=
  { h with runs := h.runs.modify r fun run => { run with aborting := true } }

/-- Asks the active run to stop or to give up, and says whether there is one. -/
def ask (c : Control) (h : Host) : Bool × Host :=
  let granted := match c with
    | .stop => h.lifecycle.stop?
    | .interrupt => h.lifecycle.interrupt?
  (granted.isSome, { h with lifecycle := granted.getD h.lifecycle })

/-! ### Turns -/

/-- A bound for the steps of one turn: each result of a poll takes a few, and each of its records
one. -/
def stepBound (h : Host) : Nat :=
  h.feed.foldl (fun n result =>
    match result with
    | .batch records => n + records.length + 8
    | .nothing | .fails _ | .panics => n + 8) 64

/-- Takes steps of a run until it waits or ends. -/
def runOn (s : Setup) (r : Nat) : (fuel : Nat) → Host → Host
  | 0, h => h
  | fuel + 1, h =>
    match h.advance s r with
    | none => h
    | some h => runOn s r fuel h

/-- The events of a write's turn, each error of the store with a notice. -/
def writeEvents (events : List Event) : List Event :=
  events.flatMap fun event =>
    match event with
    | .answered number (some e) => [.answered number (some e), .notice .writeFailed]
    | event => [event]

/-- A turn of the write of a number. -/
def turnWrite (number : Nat) (h : Host) : Host :=
  match h.writes[number]? with
  | none => h
  | some write =>
    let t := write.turn number h.now h.store
    { h with writes := h.writes.set number t.write, store := t.store }.emitAll write.run
      (writeEvents t.events)

/-- A turn of the waiter of a number. -/
def turnWaiter (number : Nat) (h : Host) : Host :=
  { h with waiters := h.waiters.modify number (·.look h.now h.lifecycle) }

/-- A turn of a worker. -/
def turn (s : Setup) (worker : Worker) (h : Host) : Host :=
  match worker with
  | .run r => h.runOn s r h.stepBound
  | .write number => h.turnWrite number
  | .waiter number => h.turnWaiter number

/-! ### Readiness -/

/-- Whether a run at a stage could go on. -/
def isStageReady (h : Host) : Stage → Bool
  | .startingStore call | .resuming call _ => call.isBack h.now
  | .polling => h.lifecycle.interrupted || !h.feed.isEmpty
  | .flushing number deadline _ =>
    h.lifecycle.interrupted || deadline ≤ h.now ||
      ((h.writes[number]?).bind Write.result?).isSome
  | _ => true

/-- Whether a run could go on. -/
def isRunReady (h : Host) (run : Run) : Bool :=
  match run.status with
  | .requested => true
  | .active a => run.aborting || h.isStageReady a.stage
  | .ended _ => false

/-- Whether a worker could go on. -/
def isReady (h : Host) : Worker → Bool
  | .run r => (h.runs[r]?).any h.isRunReady
  | .write number => (h.writes[number]?).any (Write.isReady h.now)
  | .waiter number => (h.waiters[number]?).any (Waiter.isReady h.now h.lifecycle)

/-- The instant at which a run at a stage can go on. -/
def stageDue? : Stage → Option Nat
  | .startingStore call | .resuming call _ => call.until?
  | .flushing _ deadline _ => some deadline
  | _ => none

/-- The instant at which a run can go on. -/
def runDue? (run : Run) : Option Nat :=
  match run.status with
  | .active a => stageDue? a.stage
  | .requested | .ended _ => none

/-- The instant at which a worker can go on. -/
def due? (h : Host) : Worker → Option Nat
  | .run r => (h.runs[r]?).bind runDue?
  | .write number => (h.writes[number]?).bind Write.due?
  | .waiter number => (h.waiters[number]?).bind Waiter.due?

/-- **The workers of a host as tasks.** At one instant each worker takes a few turns, and so do the
run and the write that each result of a poll may bring about. -/
def machine (s : Setup) : Machine Host Worker where
  now := Host.now
  moveTo now h := { h with now }
  tasks := Host.workers
  isReady
  due?
  turn := turn s
  patience h := 64 + 8 * (h.workers.length + h.feed.length)

end Host

end ChangeCapture
