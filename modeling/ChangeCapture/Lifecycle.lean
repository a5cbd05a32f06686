/-!
# The lifecycle of a connector

At most one run of a connector is active. Its state says how far it is; a completion latch counts
the accepted runs that have not finished, so that it is zero exactly when nothing runs; a flag asks
the active run to give up whatever it waits for.

An operation that may be refused answers `none` when it is, and has then changed nothing.

## Main definitions

* `RunState`, `Latch`, `Lifecycle`.
* `Lifecycle.start?`, `Lifecycle.stop?`, `Lifecycle.interrupt?`, `Lifecycle.clearInterrupt`,
  `Lifecycle.finish`.
-/

namespace ChangeCapture

/-- How far the run of a connector is. -/
inductive RunState where
  /-- Nothing has been run yet. -/
  | idle
  | running
  /-- Asked to stop, and finishing its batch. -/
  | stopping
  /-- The last run is over; another may start. -/
  | stopped
  deriving DecidableEq, Repr

/-- The name of a state. -/
def RunState.name : RunState → String
  | .idle => "Idle"
  | .running => "Running"
  | .stopping => "Stopping"
  | .stopped => "Stopped"

/-- A barrier that counts up and down; those who wait for it wait for zero. -/
structure Latch where
  count : Nat := 0
  deriving DecidableEq, Repr

namespace Latch

/-- One more. -/
def up (latch : Latch) : Latch := ⟨latch.count + 1⟩

/-- One less; at zero it stays. -/
def down (latch : Latch) : Latch := ⟨latch.count - 1⟩

/-- Whether nothing is counted. -/
def isOpen (latch : Latch) : Bool := latch.count == 0

end Latch

/-- The lifecycle of one connector. -/
structure Lifecycle where
  state : RunState := .idle
  /-- Counts the accepted runs that have not finished. -/
  latch : Latch := {}
  /-- Whether the active run is asked to give up what it waits for. -/
  interrupted : Bool := false
  deriving DecidableEq, Repr

namespace Lifecycle

/-- Whether a run is active and has not been asked to stop. -/
def isRunning (l : Lifecycle) : Bool :=
  l.state == .running

/-- **Claims the one place for a run**: free before the first run and after the end of each. -/
def start? (l : Lifecycle) : Option Lifecycle :=
  match l.state with
  | .idle | .stopped => some { l with state := .running, latch := l.latch.up }
  | .running | .stopping => none

/-- Asks a running run to stop after its batch. -/
def stop? (l : Lifecycle) : Option Lifecycle :=
  match l.state with
  | .running => some { l with state := .stopping }
  | .idle | .stopping | .stopped => none

/-- Asks an unfinished run to give up what it waits for. -/
def interrupt? (l : Lifecycle) : Option Lifecycle :=
  if l.latch.isOpen then none else some { l with interrupted := true }

/-- Takes the interrupt back. -/
def clearInterrupt (l : Lifecycle) : Lifecycle :=
  { l with interrupted := false }

/-- **The end of a run**: the flag falls, the place is free, and the latch counts one less. -/
def finish (l : Lifecycle) : Lifecycle :=
  { state := .stopped, latch := l.latch.down, interrupted := false }

end Lifecycle

end ChangeCapture
