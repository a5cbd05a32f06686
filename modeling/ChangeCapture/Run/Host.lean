import ChangeCapture.Lifecycle.Waiter
import ChangeCapture.Metrics
import ChangeCapture.Offsets.Write
import ChangeCapture.Offsets.Writer
import ChangeCapture.Run.Setup

/-!
# Hosts

A host owns one connector: its lifecycle, its store and the background writes, its metrics, the
results that polls will give, and the runs that were asked for. A run that was accepted stands at a
stage, with its writer and its two counters.

## Main definitions

* `Stage`, `Active`, `Run`: where a run stands.
* `Host`: everything that changes.
* `Host.emit`: the history.
* `Host.request`, `Host.startWrite`, `Host.startWaiter`: what takes turns.
-/

namespace ChangeCapture

/-! ### Runs -/

/-- Where an accepted run stands. -/
inductive Stage where
  | startingStore (call : PendingCall)
  | startingConnector
  | creatingTask
  | startingTask (properties : Properties)
  /-- The task reads the committed offsets of partitions, each given with its key. -/
  | resuming (call : PendingCall) (request : List (Partition × Bytes))
  /-- At the top of the poll loop. -/
  | looping
  | polling
  /-- The records of a batch that are left, and the whole batch. -/
  | delivering (rest batch : List Record)
  /-- The policy is asked; the last time in this run, if `final`. -/
  | consulting (final : Bool)
  /-- A write is waited for up to a deadline. -/
  | flushing (write deadline : Nat) (final : Bool)
  | stoppingTask (result : RunResult)
  | stoppingConnector (result : RunResult)
  | stoppingStore (result : RunResult)
  | leaving (result : RunResult)

/-- An accepted run that has not ended. -/
structure Active where
  connector : Connector
  writer : OffsetWriter
  /-- The records delivered since the last confirmed flush, or since the loop began. -/
  records : Nat := 0
  /-- The instant of the last confirmed flush, or of the beginning of the loop. -/
  lastCommit : Nat := 0
  stage : Stage

/-- How far a run is. -/
inductive RunStatus where
  | requested
  | active (a : Active)
  | ended (outcome : RunEnd)

/-- A run that was asked for. -/
structure Run where
  status : RunStatus := .requested
  /-- Whether it is to be dropped where it stands. -/
  aborting : Bool := false

/-- Whether a run is over. -/
def Run.isOver (r : Run) : Bool :=
  match r.status with
  | .ended _ => true
  | .requested | .active _ => false

/-! ### Workers -/

/-- What takes turns: runs, writes and waiters, by number. -/
inductive Worker where
  | run (number : Nat)
  | write (number : Nat)
  | waiter (number : Nat)
  deriving DecidableEq, Repr

/-! ### Hosts -/

/-- Everything of a host that changes. -/
structure Host where
  now : Nat := 0
  lifecycle : Lifecycle := {}
  store : PlannedStore := {}
  metrics : Option Metrics := some {}
  startCalls : Nat := 0
  createCalls : Nat := 0
  taskStartCalls : Nat := 0
  /-- The records handed to the consumer so far. -/
  deliveries : Nat := 0
  /-- What the next polls will give. -/
  feed : List Polled := []
  runs : List Run := []
  writes : List Write := []
  waiters : List Waiter := []
  /-- The workers in the order of their start. -/
  workers : List Worker := []
  /-- What has happened, the newest first. -/
  history : List HistoryEntry := []

namespace Host

/-- Adds an event of a run to the history. -/
def emit (run : Nat) (event : Event) (h : Host) : Host :=
  { h with history := ⟨run, h.now, event⟩ :: h.history }

/-- Adds events of a run to the history, in order. -/
def emitAll (run : Nat) (events : List Event) (h : Host) : Host :=
  events.foldl (fun h event => h.emit run event) h

/-- Adds a notice to the history. -/
def notify (run : Nat) (notice : Notice) (h : Host) : Host :=
  h.emit run (.notice notice)

/-- Changes the metrics, if there are any. -/
def measure (f : Metrics → Metrics) (h : Host) : Host :=
  { h with metrics := h.metrics.map f }

/-- Starts a run; it is accepted or not in its first turn. -/
def request (h : Host) : Host :=
  { h with runs := h.runs ++ [{}], workers := h.workers ++ [.run h.runs.length] }

/-- Starts a background write. -/
def startWrite (write : Write) (h : Host) : Host :=
  { h with writes := h.writes ++ [write], workers := h.workers ++ [.write h.writes.length] }

/-- Starts a waiter. -/
def startWaiter (name : Int) (wish : Wish) (h : Host) : Host :=
  { h with waiters := h.waiters ++ [{ name, wish, since := h.now }]
           workers := h.workers ++ [.waiter h.waiters.length] }

/-- A failed flush is counted. -/
def countFailure (h : Host) : Host :=
  h.measure (·.add .flushesFailed 1)

end Host

end ChangeCapture
