import ChangeCapture.Proofs.Run.Moves

/-!
# The calls of a run

On its way in a run takes hold of its store, its connector and its task, one after the other; on its
way out it gives them back in the opposite order. Here is what one step may do to what a run holds,
and at which stages it may fail.

## Main definitions

* `Held`, `Stage.holding`: what a run holds, and what it still has to give back at a stage.
* `RunStatus.Fails`: which failure a stage meets.
* `Calls`: what the calls of one step may be.
-/

namespace ChangeCapture

/-! ### What a run holds -/

/-- What a run takes hold of. -/
inductive Held where
  | store
  | connector
  | task
  deriving DecidableEq, Repr

namespace Held

/-- What a run holds from an event on: a store and a task that have started, and a connector from
the attempt to start it. -/
def of? : Event → Option Held
  | .storeStarted => some .store
  | .startConnector _ => some .connector
  | .loopBegun => some .task
  | _ => none

/-- The hook that gives it back. -/
def release : Held → Event
  | .store => .stopStore
  | .connector => .stopConnector
  | .task => .stopTask

/-- The order in which a run takes hold of things. -/
def inOrder : List Held :=
  [.store, .connector, .task]

end Held

/-- What events take hold of, in their order. -/
def heldBy (es : List Event) : List Held :=
  es.filterMap Held.of?

/-- Whether an event belongs to the work of a run, and not to its way out. -/
def Event.isWork : Event → Bool
  | .stopTask | .stopConnector | .stopStore | .ended _ => false
  | _ => true

/-- Whether a task is created. -/
def Event.isCreation : Event → Bool
  | .createTask => true
  | _ => false

/-- How many tasks are created. -/
def creations (es : List Event) : Nat :=
  (es.filter Event.isCreation).length

/-- Whether an event is of no account for what a run holds, creates, reads, delivers and writes. -/
def Event.isRemark : Event → Bool
  | .storeStarted | .startConnector _ | .loopBegun | .createTask | .resumed _ | .delivered _
  | .submitted _ _ | .committed _ | .setInStore _ _ | .answered _ _ | .stopTask | .stopConnector
  | .stopStore | .ended _ => false
  | _ => true

/-- What two lists of events take hold of. -/
theorem heldBy_append (es es' : List Event) : heldBy (es ++ es') = heldBy es ++ heldBy es' :=
  List.filterMap_append

/-- How many tasks two lists of events create. -/
theorem creations_append (es es' : List Event) :
    creations (es ++ es') = creations es + creations es' := by
  rw [creations, List.filter_append, List.length_append]
  rfl

/-- Remarks take hold of nothing. -/
theorem heldBy_remarks {es : List Event} (h : es.all Event.isRemark = true) : heldBy es = [] := by
  refine List.filterMap_eq_nil_iff.mpr ?_
  intro e he
  have := List.all_eq_true.mp h e he
  cases e <;> first | rfl | cases this

/-- Remarks create nothing. -/
theorem creations_remarks {es : List Event} (h : es.all Event.isRemark = true) :
    creations es = 0 := by
  refine List.length_eq_zero_iff.mpr (List.filter_eq_nil_iff.mpr fun e he => ?_)
  have := List.all_eq_true.mp h e he
  cases e <;> first | exact Bool.false_ne_true | cases this

/-- Remarks belong to the work. -/
theorem isWork_remarks {es : List Event} (h : es.all Event.isRemark = true) :
    es.all Event.isWork = true := by
  refine List.all_eq_true.mpr ?_
  intro e he
  have := List.all_eq_true.mp h e he
  cases e <;> first | rfl | cases this

/-! ### Stages -/

namespace Stage

/-- What a run still has to give back at a stage, the first first. -/
def holding : Stage → List Held
  | .startingStore _ => []
  | .startingConnector => [.store]
  | .creatingTask | .startingTask _ | .resuming _ _ => [.connector, .store]
  | .looping | .polling | .delivering _ _ | .consulting _ | .flushing _ _ _ | .stoppingTask _ =>
    [.task, .connector, .store]
  | .stoppingConnector _ => [.connector, .store]
  | .stoppingStore _ => [.store]
  | .leaving _ => []

/-- What a run on its way out will return. -/
def result? : Stage → Option RunResult
  | .stoppingTask result | .stoppingConnector result | .stoppingStore result | .leaving result =>
    some result
  | _ => none

/-- How many tasks may still be created from a stage on. -/
def toCreate : Stage → Nat
  | .startingStore _ | .startingConnector | .creatingTask => 1
  | _ => 0

end Stage

namespace RunStatus

/-- What a run still has to give back. -/
def holding : RunStatus → List Held
  | .active a => a.stage.holding
  | .requested | .ended _ => []

/-- What a run will return, once it is on its way out. -/
def result? : RunStatus → Option RunResult
  | .requested => none
  | .active a => a.stage.result?
  | .ended (.returned result) => some result
  | .ended _ => none

/-- How many tasks a run may still create. -/
def toCreate : RunStatus → Nat
  | .requested => 1
  | .active a => a.stage.toCreate
  | .ended _ => 0

/-- **The failure that a stage meets.** What a run does next is to give back what it holds. -/
inductive Fails (s : Setup) (h : Host) : RunStatus → RunError → Prop where
  | config {e : ConfigError} (hfree : h.lifecycle.isTaken = false)
      (he : s.config.validate = .error e) :
      Fails s h .requested (.config e)
  | unknownClass (hfree : h.lifecycle.isTaken = false) (hv : s.config.validate = .ok ())
      (hc : s.registry.create? s.config.connectorClass = none) :
      Fails s h .requested (.unknownClass s.config.connectorClass)
  | callOfStart {a : Active} {call : PendingCall} {e : OffsetError}
      (ha : a.stage = .startingStore call)
      (he : call.error = some e) : Fails s h (.active a) (.offset e)
  | startStore {a : Active} {call : PendingCall} {e : OffsetError}
      (ha : a.stage = .startingStore call)
      (hc : call.error = none) (he : h.store.start = .error e) : Fails s h (.active a) (.offset e)
  | startConnector {a : Active} {e : TaskError} (ha : a.stage = .startingConnector)
      (he : a.connector.startError h.startCalls = some e) : Fails s h (.active a) (.task e)
  | noTaskConfig {a : Active} (ha : a.stage = .creatingTask) (hc : a.connector.taskConfigs = []) :
      Fails s h (.active a) (.task (.noTaskConfig s.config.connectorClass))
  | createTask {a : Active} {e : TaskError} (ha : a.stage = .creatingTask)
      (hc : a.connector.taskConfigs ≠ []) (he : a.connector.createError h.createCalls = some e) :
      Fails s h (.active a) (.task e)
  | startTask {a : Active} {properties : Properties} {e : TaskError}
      (ha : a.stage = .startingTask properties)
      (he : a.connector.taskStartError h.taskStartCalls = some e) : Fails s h (.active a) (.task e)
  | keysToResume {a : Active} {properties : Properties} {ps : List Partition} {e : OffsetError}
      (ha : a.stage = .startingTask properties)
      (hs : a.connector.taskStartError h.taskStartCalls = none)
      (hps : a.connector.resumes = some ps) (he : s.offsetFormat.storeKeys ps = .error e) :
      Fails s h (.active a) (.task (.offset e))
  | callOfGet {a : Active} {call : PendingCall} {request : List (Partition × Bytes)}
      {e : OffsetError}
      (ha : a.stage = .resuming call request) (he : call.error = some e) :
      Fails s h (.active a) (.task (.offset e))
  | poll {a : Active} {e : TaskError} {feed : List Polled} (ha : a.stage = .polling)
      (hi : h.lifecycle.interrupted = false) (hf : h.feed = .fails e :: feed)
      (he : e ≠ .interrupted) :
      Fails s h (.active a) (.task e)
  | delivery {a : Active} {x : Record} {rest batch : List Record} {report : Report}
      (ha : a.stage = .delivering (x :: rest) batch)
      (hv : (s.consumer h.deliveries).verdict = .rejects report) : Fails s h (.active a)
      (.delivery report)

end RunStatus

/-! ### The calls of a step -/

/-- Whether a configuration is valid and its class registered. -/
def Setup.IsSound (s : Setup) : Prop :=
  s.config.validate = .ok () ∧ ∃ c, s.registry.create? s.config.connectorClass = some c

/-- The last events of a run that returns. -/
def closing : RunResult → List Event
  | .error e => [.notice .runFailed, .ended (.returned (.error e))]
  | .ok exit => [.ended (.returned (.ok exit))]

/-- **What the calls of one step may be.** A run is turned away; or it works on, and what it takes
hold of it will have to give back; or it gives back what it has to give back first; or it leaves
with empty hands, either at the end of its way out or because nothing was started; or it breaks
off. -/
inductive Calls (s : Setup) (h : Host) : RunStatus → List Event → RunStatus → Prop where
  | turnedAway : Calls s h .requested [] (.ended (.returned (.ok .alreadyRunning)))
  | works {st : RunStatus} {es : List Event} {a' : Active} (hst : st.result? = none)
      (hfirst : st = .requested → s.IsSound) (hwork : es.all Event.isWork = true)
      (hheld : a'.stage.holding = (heldBy es).reverse ++ st.holding)
      (hcreate : creations es + a'.stage.toCreate ≤ st.toCreate)
      (hfails : ∀ e, a'.stage.result? = some (.error e) → st.Fails s h e) :
      Calls s h st es (.active a')
  | releases {a a' : Active} {x : Held} (ha : a.stage.result? ≠ none)
      (hres : a'.stage.result? = a.stage.result?)
      (hheld : a.stage.holding = x :: a'.stage.holding) :
      Calls s h (.active a) [x.release] (.active a')
  | leaves {a : Active} {result : RunResult} (ha : a.stage = .leaving result) :
      Calls s h (.active a) (closing result) (.ended (.returned result))
  | fails {st : RunStatus} {es : List Event} {e : RunError} (hst : st.result? = none)
      (hheld : st.holding = [])
      (hes : st = .requested ∧ es = [.accepted] ∨ st ≠ .requested ∧ es = [])
      (hfails : st.Fails s h e) : Calls s h st (es ++ closing (.error e))
      (.ended (.returned (.error e)))
  | breaks {st : RunStatus} {es : List Event} {outcome : RunEnd}
      (ho : ∀ result, outcome ≠ .returned result) :
      Calls s h st es (.ended outcome)

/-- Remarks before a step's other events make no difference. -/
theorem Calls.works_of_remarks {s : Setup} {h : Host} {st : RunStatus} {remarks es : List Event}
    {a' : Active} (hr : remarks.all Event.isRemark = true) (hst : st.result? = none)
    (hfirst : st = .requested → s.IsSound) (hwork : es.all Event.isWork = true)
    (hheld : a'.stage.holding = (heldBy es).reverse ++ st.holding)
    (hcreate : creations es + a'.stage.toCreate ≤ st.toCreate)
    (hfails : ∀ e, a'.stage.result? = some (.error e) → st.Fails s h e) :
    Calls s h st (remarks ++ es) (.active a') := by
  refine .works hst hfirst ?_ ?_ ?_ hfails
  · rw [List.all_append, isWork_remarks hr, hwork]
    rfl
  · rw [heldBy_append, heldBy_remarks hr, List.nil_append, hheld]
  · rw [creations_append, creations_remarks hr, Nat.zero_add]
    exact hcreate

/-- A step of mere remarks. -/
theorem Calls.idles {s : Setup} {h : Host} {st : RunStatus} {es : List Event} {a' : Active}
    (hes : es.all Event.isRemark = true) (hst : st.result? = none)
    (hfirst : st = .requested → s.IsSound)
    (hheld : a'.stage.holding = st.holding) (hcreate : a'.stage.toCreate ≤ st.toCreate)
    (hfails : ∀ e, a'.stage.result? = some (.error e) → st.Fails s h e) :
    Calls s h st es (.active a') := by
  refine .works hst hfirst (isWork_remarks hes) ?_ ?_ hfails
  · rw [heldBy_remarks hes]
    exact hheld
  · rw [creations_remarks hes, Nat.zero_add]
    exact hcreate

end ChangeCapture
