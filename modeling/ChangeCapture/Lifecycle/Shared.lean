import ChangeCapture.Lifecycle

/-!
# Calls that overlap

The run of a connector and those who control it share one lifecycle, on threads of their own and
without a lock. What nothing comes between is a single access to it: a compare-and-set of the state
or a store to it, an update of the latch or a look at it, a write of the flag. A call makes one to
three accesses, and any other call may make some of its own between two of them.

A run that is accepted is finished once, so a call that finishes a run takes one of the accepted
runs for which there has been no such call.

## Main definitions

* `Lifecycle.Access`, `Lifecycle.Access.perform`: the accesses, what they do and what follows them.
* `Lifecycle.Call`: the calls.
* `SharedLifecycle`: a lifecycle and the calls that have been made.
* `SharedLifecycle.move?`, `SharedLifecycle.follow?`: a call is made or makes its next access, and
  many such moves.
-/

namespace ChangeCapture

namespace Lifecycle

/-- **An access to a lifecycle** that nothing comes between. -/
inductive Access where
  /-- The first attempt to start: nothing has been run yet. -/
  | claimIdle
  /-- The second attempt to start: the last run is over. -/
  | claimStopped
  /-- Counts an accepted run. -/
  | countUp
  | requestStop
  /-- Looks whether there is a run to interrupt. -/
  | readLatch
  | raise
  /-- Takes an interrupt back. -/
  | takeBack
  /-- The end of a run lowers the flag first. -/
  | lower
  /-- Then it makes the place free. -/
  | release
  /-- Then it is counted. -/
  | countDown
  deriving DecidableEq, Repr

/-- **How far a call has come.** -/
inductive Progress where
  /-- The access that it makes next. -/
  | before (access : Access)
  /-- It is over, and has answered if calls of its kind do. -/
  | returned (answer : Option Bool)
  deriving DecidableEq, Repr

/-- Whether a call is over. -/
def Progress.isOver : Progress → Bool
  | .before _ => false
  | .returned _ => true

/-- Changes the state if it is the expected one, and tells whether it was. -/
def exchange (l : Lifecycle) (expected new : RunState) : Lifecycle × Bool :=
  if l.state = expected then ({ l with state := new }, true) else (l, false)

/-- **What an access does**, and how far its call has come then. -/
def Access.perform (l : Lifecycle) : Access → Lifecycle × Progress
  | .claimIdle =>
    let (l', claimed) := l.exchange .idle .running
    (l', .before (if claimed then .countUp else .claimStopped))
  | .claimStopped =>
    let (l', claimed) := l.exchange .stopped .running
    (l', if claimed then .before .countUp else .returned (some false))
  | .countUp => ({ l with latch := l.latch.up }, .returned (some true))
  | .requestStop =>
    let (l', asked) := l.exchange .running .stopping
    (l', .returned (some asked))
  | .readLatch => (l, if l.latch.isOpen then .returned (some false) else .before .raise)
  | .raise => ({ l with interrupted := true }, .returned (some true))
  | .takeBack => (l.clearInterrupt, .returned (some l.interrupted))
  | .lower => (l.clearInterrupt, .before .release)
  | .release => ({ l with state := .stopped }, .before .countDown)
  | .countDown => ({ l with latch := l.latch.down }, .returned none)

/-- A call to a lifecycle. -/
inductive Call where
  | start | stop | interrupt | clearInterrupt | finish
  deriving DecidableEq, Repr

/-- The access that a call begins with. -/
def Call.first : Call → Access
  | .start => .claimIdle
  | .stop => .requestStop
  | .interrupt => .readLatch
  | .clearInterrupt => .takeBack
  | .finish => .lower

end Lifecycle

open Lifecycle (Access Progress Call)

/-- **A lifecycle that is used by many calls at the same time.** -/
structure SharedLifecycle where
  lifecycle : Lifecycle := {}
  /-- The calls that have been made, each as far as it has come. -/
  calls : List Progress := []
  /-- Counts the accepted runs that no call has been made to finish. -/
  unfinished : Nat := 0
  deriving DecidableEq, Repr

namespace SharedLifecycle

/-- What may happen next. -/
inductive Move where
  /-- A call is made. -/
  | call (c : Call)
  /-- The next access of a call. -/
  | turn (number : Nat)
  deriving DecidableEq, Repr

/-- A call is made; it has made no access yet. -/
def called (s : SharedLifecycle) (c : Call) : SharedLifecycle :=
  { s with
    calls := s.calls ++ [.before c.first]
    unfinished := if c = .finish then s.unfinished - 1 else s.unfinished }

/-- A call has made an access. -/
def accessed (s : SharedLifecycle) (number : Nat) (access : Access) : SharedLifecycle where
  lifecycle := (access.perform s.lifecycle).1
  calls := s.calls.set number (access.perform s.lifecycle).2
  unfinished := if access = .countUp then s.unfinished + 1 else s.unfinished

/-- **A move**, unless there is no run to finish or the call is over. -/
def move? (s : SharedLifecycle) : Move → Option SharedLifecycle
  | .call c => if c = .finish ∧ s.unfinished = 0 then none else some (s.called c)
  | .turn number =>
    match s.calls[number]? with
    | some (.before access) => some (s.accessed number access)
    | some (.returned _) | none => none

/-- **The moves of many calls**, one after the other. -/
def follow? (s : SharedLifecycle) (moves : List Move) : Option SharedLifecycle :=
  moves.foldlM move? s

/-- **Nothing runs and no call is halfway.** -/
def AtRest (s : SharedLifecycle) : Prop :=
  s.lifecycle.latch.count = 0 ∧ ∀ c ∈ s.calls, c.isOver

instance (s : SharedLifecycle) : Decidable s.AtRest :=
  inferInstanceAs (Decidable (_ ∧ _))

end SharedLifecycle

end ChangeCapture
