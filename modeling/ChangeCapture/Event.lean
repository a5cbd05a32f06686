import ChangeCapture.Config
import ChangeCapture.Notice
import ChangeCapture.Record
import ChangeCapture.Storage.Entries

/-!
# Events

What happens while a connector runs: the calls that are made, what comes of them, and what is
reported. The history of a host is a list of such events, each with its run and its instant.

## Main definitions

* `Polled`, `Control`: what a poll gives, and what a host may ask of a run.
* `RunError`, `RunExit`, `RunEnd`: how a run ends.
* `Event`, `HistoryEntry`.
-/

namespace ChangeCapture

/-! ### Polls and controls -/

/-- What a poll gives. -/
inductive Polled where
  /-- Records, or an empty batch. -/
  | batch (records : List Record)
  | nothing
  | fails (error : TaskError)
  | panics
  deriving DecidableEq, Repr

/-- What a host may ask of a run. -/
inductive Control where
  | stop
  | interrupt
  deriving DecidableEq, Repr

/-! ### Ends of runs -/

/-- Why a run fails. -/
inductive RunError where
  | config (error : ConfigError)
  | unknownClass (className : String)
  | task (error : TaskError)
  | offset (error : OffsetError)
  | delivery (report : Report)
  deriving DecidableEq, Repr

/-- The wording of a run error, for those whose wording is fixed. -/
def RunError.message? : RunError → Option String
  | .config e => some ("Invalid connector configuration: " ++ e.message)
  | .unknownClass className => some ("Unknown connector class: " ++ className)
  | .task e => e.message?.map ("Connector task failed: " ++ ·)
  | .offset e => e.message?.map ("Offset storage error: " ++ ·)
  | .delivery report => some ("Record delivery failed: " ++ report.shown)

/-- How a run ends without failing. -/
inductive RunExit where
  /-- Another run is active; this one did nothing. -/
  | alreadyRunning
  | stopped
  | interrupted
  deriving DecidableEq, Repr

/-- The name of an exit. -/
def RunExit.name : RunExit → String
  | .alreadyRunning => "AlreadyRunning"
  | .stopped => "Stopped"
  | .interrupted => "Interrupted"

/-- What a run returns. -/
abbrev RunResult := Except RunError RunExit

/-- How a run ends: it returns, or is dropped where it stands. -/
inductive RunEnd where
  | returned (result : RunResult)
  | panicked
  | aborted

/-! ### Events -/

/-- What happens. Writes are named by their number among all writes of the host. -/
inductive Event where
  /-- The host accepts the run. -/
  | accepted
  | createConnector
  | startStore
  /-- The store has started. -/
  | storeStarted
  /-- The connector is given its context. -/
  | equipConnector (name : String)
  | startConnector (properties : Properties)
  | askTaskConfigs (count : Nat)
  | createTask
  /-- The task is given its reader. -/
  | equipTask
  | startTask (properties : Properties)
  | getFromStore (keys : List Bytes)
  /-- The task was given its committed offsets. -/
  | resumed (offsets : List (Partition × Offset))
  /-- The task has started, and the poll loop begins. -/
  | loopBegun
  | poll
  /-- What a poll gave. -/
  | polled (result : Polled)
  /-- A record is handed to the consumer. -/
  | deliver (record : Record)
  /-- The consumer asked something of its own run. -/
  | controlled (control : Control) (granted : Bool)
  /-- The consumer accepted a record. -/
  | taken (record : Record)
  /-- The consumer accepted every record of a batch. -/
  | delivered (records : List Record)
  /-- A probe of the policy was consulted. -/
  | probed (name : String) (fired : Bool)
  /-- The policy was consulted, with the pending records and the time since the last commit. -/
  | consulted (records elapsed : Nat) (fired : Bool)
  /-- A snapshot of positions was handed to the background. -/
  | submitted (write : Nat) (entries : Entries)
  /-- A background write reached the store. -/
  | setInStore (write : Nat) (entries : Entries)
  /-- The store answered a background write. -/
  | answered (write : Nat) (error : Option OffsetError)
  /-- A flush was confirmed within its time. -/
  | committed (write : Nat)
  /-- A flush was given up, and its positions are pending again. -/
  | givenUp (write : Nat)
  /-- The interrupt was taken note of. -/
  | interruptCleared
  | stopTask
  | stopConnector
  | stopStore
  | notice (n : Notice)
  | ended (outcome : RunEnd)

/-- An event of a run at an instant. -/
structure HistoryEntry where
  run : Nat
  instant : Nat
  event : Event

end ChangeCapture
