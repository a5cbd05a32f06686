import ChangeCapture.Lifecycle

/-!
# Waiters

A waiter waits for the completion of whatever runs, up to a timeout, or for an interrupt. It looks
at the lifecycle only when it takes a turn, so what comes and goes between two turns is not seen.
Its timeout runs from its first turn.

## Main definitions

* `Waiter`, `Waiter.isReady`, `Waiter.look`: a waiter and its turn.
* `Answer`: what it found, and when.
-/

namespace ChangeCapture

/-- What a waiter waits for. -/
inductive Wish where
  /-- That nothing runs, but no longer than a timeout. -/
  | completion (timeout : Nat)
  /-- That the interrupt is raised. -/
  | interruption
  deriving DecidableEq, Repr

/-- What a waiter found, and the instant at which it did. -/
structure Answer where
  found : Bool
  instant : Nat
  deriving DecidableEq, Repr

/-- Somebody who waits. -/
structure Waiter where
  name : Int
  wish : Wish
  /-- When it was started. -/
  since : Nat
  /-- When its patience ends, once it has taken a turn. -/
  deadline : Option Nat := none
  hasLooked : Bool := false
  answer : Option Answer := none
  deriving DecidableEq, Repr

namespace Waiter

/-- The deadline of a waiter that takes its first turn now. -/
def firstDeadline (now : Nat) : Wish → Option Nat
  | .completion timeout => some (now + timeout)
  | .interruption => none

/-- Whether what a waiter waits for is the case. -/
def isMet (l : Lifecycle) : Wish → Bool
  | .completion _ => l.latch.isOpen
  | .interruption => l.interrupted

/-- Whether a deadline has come. -/
def hasCome (now : Nat) : Option Nat → Bool
  | some deadline => deadline ≤ now
  | none => false

/-- Whether a waiter could go on. -/
def isReady (now : Nat) (l : Lifecycle) (w : Waiter) : Bool :=
  w.answer.isNone && (!w.hasLooked || isMet l w.wish || hasCome now w.deadline)

/-- The instant at which a waiter gives up. -/
def due? (w : Waiter) : Option Nat :=
  if w.answer.isNone then w.deadline else none

/-- **A turn of a waiter.** What it waits for goes before its deadline. -/
def look (now : Nat) (l : Lifecycle) (w : Waiter) : Waiter :=
  match w.answer with
  | some _ => w
  | none =>
    let deadline := if w.hasLooked then w.deadline else firstDeadline now w.wish
    let answer : Option Answer :=
      if isMet l w.wish then some ⟨true, now⟩
      else if hasCome now deadline then some ⟨false, now⟩
      else none
    { w with hasLooked := true, deadline, answer }

end Waiter

end ChangeCapture
