/-!
# Schedules in virtual time

Tasks share one thread and a clock that moves only when everybody waits. A task that can go on is
put at the end of a queue; the head of the queue takes a turn, which lasts until it is blocked. When
the queue is empty the clock jumps to the next instant at which something happens.

A task that waits for an instant has set its alarm for it. Of several alarms for one instant the one
that was set first goes off first.

Beside the tasks stands the host, which starts them and waits for them. At an instant at which both
the host's patience ends and a task could go on, the host is served first.

## Main definitions

* `Machine`: what a schedule has to know about the tasks of a state.
* `Timeline`: a state, the queue of its tasks, and their alarms.
* `Timeline.settle`: turns until everybody is blocked.
* `Timeline.waitUntil`: the host waits for something, at most to a deadline.

## Fuel

The turns of one instant are bounded by `Machine.patience`, which a machine states for its states.
The jumps of one wait are bounded by the time to its deadline, because each of them moves the clock.
-/

namespace ChangeCapture

/-- **What a schedule has to know** about tasks of type `τ` that act on a state of type `σ`. -/
structure Machine (σ τ : Type) where
  /-- The clock. -/
  now : σ → Nat
  /-- Moves the clock. -/
  moveTo : Nat → σ → σ
  /-- The tasks, in the order in which they were started. -/
  tasks : σ → List τ
  /-- Whether a task can go on. -/
  isReady : σ → τ → Bool
  /-- The instant at which a blocked task can go on without anybody's doing. -/
  due? : σ → τ → Option Nat
  /-- A turn: the task goes on until it is blocked. -/
  turn : τ → σ → σ
  /-- More turns than the tasks of a state can take at one instant. -/
  patience : σ → Nat

/-- A state, the tasks that are to take a turn, and those that have set an alarm, in order. -/
structure Timeline (σ τ : Type) where
  state : σ
  queue : List τ := []
  alarms : List τ := []

namespace Timeline

variable {σ τ : Type} [DecidableEq τ]

/-- Puts those of some tasks that can go on into the queue, behind those in it. -/
def enqueueOf (m : Machine σ τ) (tasks : List τ) (t : Timeline σ τ) : Timeline σ τ :=
  { t with queue := t.queue ++
      tasks.filter fun task => m.isReady t.state task && !t.queue.contains task }

/-- Puts the tasks that can go on into the queue. -/
def enqueue (m : Machine σ τ) (t : Timeline σ τ) : Timeline σ τ :=
  enqueueOf m (m.tasks t.state) t

/-- Something happens to the state from outside. -/
def change (m : Machine σ τ) (f : σ → σ) (t : Timeline σ τ) : Timeline σ τ :=
  enqueue m { t with state := f t.state }

/-- The alarms after a turn of a task: its own is kept if it is for the same instant as before. -/
def setAlarm (m : Machine σ τ) (before after : σ) (task : τ) (alarms : List τ) : List τ :=
  if m.due? after task = m.due? before task then alarms
  else alarms.erase task ++ if (m.due? after task).isSome then [task] else []

/-- A turn of the task at the head of the queue. -/
def next? (m : Machine σ τ) (t : Timeline σ τ) : Option (Timeline σ τ) :=
  match t.queue with
  | [] => none
  | task :: queue =>
    let state := m.turn task t.state
    some (enqueue m { state, queue, alarms := setAlarm m t.state state task t.alarms })

/-- The clock jumps to an instant, and alarms go off. -/
def jump (m : Machine σ τ) (instant : Nat) (t : Timeline σ τ) : Timeline σ τ :=
  enqueue m (enqueueOf m t.alarms { t with state := m.moveTo instant t.state })

/-- Takes turns while there are some and fuel is left. -/
def takeTurns (m : Machine σ τ) : (fuel : Nat) → Timeline σ τ → Timeline σ τ
  | 0, t => t
  | fuel + 1, t =>
    match next? m t with
    | none => t
    | some t => takeTurns m fuel t

/-- **Turns until everybody is blocked.** The clock stands still. -/
def settle (m : Machine σ τ) (t : Timeline σ τ) : Timeline σ τ :=
  takeTurns m (m.patience t.state) t

/-- The next instant after now, and not after a deadline, at which something happens. -/
def nextInstant (m : Machine σ τ) (deadline : Nat) (s : σ) : Nat :=
  ((m.tasks s).filterMap (m.due? s)).foldl
    (fun least due => if m.now s < due && due < least then due else least) deadline

/-- Lets tasks go on and time pass until something is the case or the deadline has come. -/
def waitLoop (m : Machine σ τ) (done : σ → Bool) (deadline : Nat) :
    (fuel : Nat) → Timeline σ τ → Bool × Timeline σ τ
  | 0, t => (false, t)
  | fuel + 1, t =>
    let t := settle m t
    if done t.state then (true, t)
    else
      let instant := nextInstant m deadline t.state
      let t := jump m instant t
      if deadline ≤ instant then (false, t) else waitLoop m done deadline fuel t

/-- **The host waits** until something is the case, and says whether it is; it waits no longer than
to the deadline. What is the case already is not waited for, and nobody takes a turn. -/
def waitUntil (m : Machine σ τ) (done : σ → Bool) (deadline : Nat) (t : Timeline σ τ) :
    Bool × Timeline σ τ :=
  if done t.state then (true, t)
  else if deadline ≤ m.now t.state then (false, t)
  else waitLoop m done deadline (deadline - m.now t.state) t

/-- The host waits for so long. -/
def sleep (m : Machine σ τ) (duration : Nat) (t : Timeline σ τ) : Timeline σ τ :=
  (waitUntil m (fun _ => false) (m.now t.state + duration) t).2

end Timeline

end ChangeCapture
