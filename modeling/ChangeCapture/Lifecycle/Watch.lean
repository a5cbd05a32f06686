import ChangeCapture.Lifecycle.Waiter
import ChangeCapture.Schedule

/-!
# Watching a lifecycle

A lifecycle in the hands of a host, with waiters beside it: the smallest thing that a schedule can
run.

## Main definitions

* `Watch`, `Watch.machine`: the lifecycle, its waiters and their turns.
* `Watch.spawn`: starts a waiter.
-/

namespace ChangeCapture

/-- A lifecycle, a clock, and the waiters in the order of their start. -/
structure Watch where
  lifecycle : Lifecycle := {}
  now : Nat := 0
  waiters : List Waiter := []
  deriving DecidableEq, Repr

namespace Watch

/-- Starts a waiter. -/
def spawn (name : Int) (wish : Wish) (w : Watch) : Watch :=
  { w with waiters := w.waiters ++ [{ name, wish, since := w.now }] }

/-- Whether the waiter at an index could go on. -/
def isReady (w : Watch) (i : Nat) : Bool :=
  match w.waiters[i]? with
  | some waiter => waiter.isReady w.now w.lifecycle
  | none => false

/-- A turn of the waiter at an index. -/
def turn (i : Nat) (w : Watch) : Watch :=
  { w with waiters := w.waiters.modify i (·.look w.now w.lifecycle) }

/-- **The waiters as tasks.** Each takes at most two turns at one instant. -/
def machine : Machine Watch Nat where
  now := Watch.now
  moveTo now w := { w with now }
  tasks w := List.range w.waiters.length
  isReady
  due? w i := (w.waiters[i]?).bind Waiter.due?
  turn
  patience w := 2 * w.waiters.length + 1

end Watch

end ChangeCapture
