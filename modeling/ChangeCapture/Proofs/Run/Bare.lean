import ChangeCapture.Proofs.Run.Counts
import ChangeCapture.Proofs.Run.Draining

/-!
# Hosts without their commits

Commits come in between: between the delivery of a batch and the next poll, and between an interrupt
and the end of a run. What is left of a host without them is what its run does for its connector and
its consumer: its trail, where it stands, and what the next hooks will answer.

A step that commits leaves all this as it is. Any other step does to the bare host what it does to
the host: neither the policy, nor the time, nor what became of the writes has a part in it.

## Main definitions

* `trail`: the events of a run but for its commits.
* `Stage.bare`, `Host.bare`: what is left without commits.
* `bareStep`: the next step of a bare host.

## Main results

* `Host.step_bare` — a step that does not commit is a step of the bare host.
* `Host.step_bare_of_isCommitting` — a step that commits leaves the bare host alone.
-/

namespace ChangeCapture

/-! ### Trails -/

/-- Whether a notice tells of a flush. -/
def Notice.isOfFlush : Notice → Bool
  | .snapshotOutstanding | .snapshotUnwritable | .staleCompletion | .flushNotBegun | .writeFailed
  | .flushNotSubmitted | .flushInterrupted | .flushFailed | .flushTimedOut => true
  | .offsetNotObject | .offsetUnreadable | .connectorNotStarted | .taskNotStarted | .runFailed =>
    false

/-- Properties without the one for the commit timeout. -/
def Properties.untimed (properties : Properties) : Properties :=
  properties.erase ConfigField.flushTimeout.name

/-- What is left of an event without commits: nothing, if it tells of the policy, of a flush or of a
write. The properties that a connector is started with are looked at without the commit timeout. -/
def Event.bare? : Event → Option Event
  | .probed _ _ | .consulted _ _ _ | .submitted _ _ | .setInStore _ _ | .answered _ _
  | .committed _ | .givenUp _ => none
  | .notice n => if n.isOfFlush then none else some (.notice n)
  | .startConnector properties => some (.startConnector properties.untimed)
  | e => some e

/-- **The trail of a run**: its events but for its commits, the newest first. -/
def trail (es : List Event) : List Event :=
  es.filterMap Event.bare?

/-- The commit timeout is taken away once. -/
theorem Properties.untimed_untimed (properties : Properties) :
    properties.untimed.untimed = properties.untimed := by
  rw [untimed, untimed, Dictionary.erase, Dictionary.erase, List.filter_filter]
  simp

/-- What is left of an event is left of it. -/
theorem Event.bare?_bare? {e e' : Event} (h : e.bare? = some e') : e'.bare? = some e' := by
  cases e with
  | notice n =>
    rw [bare?] at h
    split at h
    · cases h
    · rename_i hn
      obtain rfl := Option.some.inj h
      rw [bare?, if_neg hn]
  | startConnector properties =>
    obtain rfl := Option.some.inj h
    rw [bare?, Properties.untimed_untimed]
  | _ => first | (obtain rfl := Option.some.inj h; rfl) | cases h

/-- The trail of a trail. -/
@[simp] theorem trail_trail (es : List Event) : trail (trail es) = trail es := by
  induction es with
  | nil => rfl
  | cons e es ih =>
    cases he : e.bare? with
    | none =>
      have hskip : trail (e :: es) = trail es := List.filterMap_cons_none he
      rw [hskip, ih]
    | some e' =>
      have hkeep : trail (e :: es) = e' :: trail es := List.filterMap_cons_some he
      rw [hkeep]
      exact (List.filterMap_cons_some (Event.bare?_bare? he)).trans (congrArg _ ih)

/-- The trail of two lists of events. -/
@[simp] theorem trail_append (newer older : List Event) :
    trail (newer ++ older) = trail newer ++ trail older :=
  List.filterMap_append

/-! ### What is left of a run -/

/-- A configuration without the commit timeout, wherever it stands. -/
def Config.untimed (config : Config) : Config :=
  { config with flushTimeout := 1, properties := config.properties.untimed }

/-- What is left of a setup without commits. -/
def Setup.bare (s : Setup) : Setup :=
  { s with config := s.config.untimed, policy := .const false }

/-- A pending call that is back at once, if it ever comes back. -/
def PendingCall.bare (call : PendingCall) : PendingCall :=
  { call with until? := call.until?.map fun _ => 0 }

/-- **Where a run stands without commits**: one that commits has gone on already. -/
def Stage.bare : Stage → Stage
  | .startingStore call => .startingStore call.bare
  | .resuming call request => .resuming call.bare request
  | .consulting final | .flushing _ _ final =>
    if final then .stoppingTask (.ok .interrupted) else .looping
  | stage => stage

/-- Whether a stage comes before the loop. -/
def Stage.isStarting : Stage → Bool
  | .startingStore _ | .startingConnector | .creatingTask | .startingTask _ | .resuming _ _ => true
  | _ => false

/-- What is left of an accepted run without commits. -/
def Active.bare (s : Setup) (a : Active) : Active where
  connector := a.connector
  writer := { format := s.offsetFormat }
  stage := a.stage.bare

/-- What is left of a run without commits. -/
def RunStatus.bare (s : Setup) : RunStatus → RunStatus
  | .requested => .requested
  | .active a => .active (a.bare s)
  | .ended outcome => .ended outcome

/-- Whether a run has not come to its loop, and still looks into the store. -/
def RunStatus.isStarting : RunStatus → Bool
  | .requested => true
  | .active a => a.stage.isStarting
  | .ended _ => false

/-- A run at a stage before the loop has not come to it. -/
theorem RunStatus.isStarting_of_stage {a : Active} {stage : Stage} (ha : a.stage = stage)
    (hstage : stage.isStarting = true) : (RunStatus.active a).isStarting = true := by
  subst ha
  exact hstage

/-- How many polls gave something. -/
def polls (es : List Event) : Nat :=
  (es.filterMap Event.polled?).length

/-- **What is left of a host without commits**, given the script of its polls and how far its run
is: no time, no writes, no metrics, and of the content of the store what the run still looks at. -/
def Host.bare (script : Nat → Polled) (st : RunStatus) (h : Host) : Host where
  lifecycle := h.lifecycle
  store :=
    { store := if st.isStarting then h.store.store else .empty
      plan := { starts := h.store.plan.starts, gets := h.store.plan.gets }
      startCalls := h.store.startCalls
      getCalls := h.store.getCalls }
  metrics := none
  startCalls := h.startCalls
  createCalls := h.createCalls
  taskStartCalls := h.taskStartCalls
  deliveries := h.deliveries
  feed := [script (polls (trail (eventsOf 0 h.history)))]
  history := (trail (eventsOf 0 h.history)).map (HistoryEntry.mk 0 0)

/-- **A bare host**: what is left of a run, and of its host. -/
structure Bare where
  status : RunStatus
  host : Host

section Steps

variable (s : Setup) (script : Nat → Polled)

/-- What is left of a run and its host. -/
def Host.toBare (st : RunStatus) (h : Host) : Bare :=
  ⟨st.bare s, h.bare script st⟩

/-- What is left of what a step leads to. -/
def Progress.toBare? : Progress → Option Bare
  | .blocked => none
  | .goesOn a h => some (h.toBare s script (.active a))
  | .ends outcome h => some (h.toBare s script (.ended outcome))

/-- What the run of a host does next. -/
def Host.progress (st : RunStatus) (h : Host) : Progress :=
  match st with
  | .requested => h.begin s 0
  | .active a => h.step s 0 a
  | .ended _ => .blocked

end Steps

/-- **The next step of a bare host.** One that waits or has ended stays as it is. -/
def bareStep (s : Setup) (script : Nat → Polled) (b : Bare) : Bare :=
  ((b.host.progress s.bare b.status).toBare? s script).getD b

/-! ### Agreement -/

/-- The events of a run that are given as such. -/
@[simp] theorem eventsOf_map_zero (es : List Event) :
    eventsOf 0 (es.map (HistoryEntry.mk 0 0)) = es :=
  eventsOf_map_self 0 0 es

/-- Commits do not come before the loop. -/
@[simp] theorem Stage.isStarting_bare (stage : Stage) :
    stage.bare.isStarting = stage.isStarting := by
  cases stage with
  | consulting final | flushing _ _ final => cases final <;> rfl
  | _ => rfl

namespace Host

/-- **Two hosts agree** on all but commits, time, and the content of the store. -/
structure Agrees (g h : Host) : Prop where
  lifecycle : g.lifecycle = h.lifecycle
  starts : g.store.plan.starts = h.store.plan.starts
  gets : g.store.plan.gets = h.store.plan.gets
  storeStarts : g.store.startCalls = h.store.startCalls
  storeGets : g.store.getCalls = h.store.getCalls
  startCalls : g.startCalls = h.startCalls
  createCalls : g.createCalls = h.createCalls
  taskStartCalls : g.taskStartCalls = h.taskStartCalls
  deliveries : g.deliveries = h.deliveries
  history : trail (eventsOf 0 g.history) = trail (eventsOf 0 h.history)

variable {s : Setup} {script : Nat → Polled} {g h : Host} {a b : Active} {st st' : RunStatus}

/-- A host agrees with itself. -/
theorem Agrees.refl (h : Host) : h.Agrees h :=
  ⟨rfl, rfl, rfl, rfl, rfl, rfl, rfl, rfl, rfl, rfl⟩

/-- It does not matter which host comes first. -/
theorem Agrees.symm (hg : g.Agrees h) : h.Agrees g where
  lifecycle := hg.lifecycle.symm
  starts := hg.starts.symm
  gets := hg.gets.symm
  storeStarts := hg.storeStarts.symm
  storeGets := hg.storeGets.symm
  startCalls := hg.startCalls.symm
  createCalls := hg.createCalls.symm
  taskStartCalls := hg.taskStartCalls.symm
  deliveries := hg.deliveries.symm
  history := hg.history.symm

/-- A host agrees with what is left of it. -/
theorem agrees_bare (script : Nat → Polled) (st : RunStatus) (h : Host) :
    (h.bare script st).Agrees h where
  lifecycle := rfl
  starts := rfl
  gets := rfl
  storeStarts := rfl
  storeGets := rfl
  startCalls := rfl
  createCalls := rfl
  taskStartCalls := rfl
  deliveries := rfl
  history := by simp [bare]

namespace Agrees

/-- Hosts that agree have the same left of them, as far as the content of the store is concerned. -/
theorem bare_eq (hg : g.Agrees h) (hst : st.isStarting = st'.isStarting)
    (hstore : st'.isStarting = true → g.store.store = h.store.store) :
    g.bare script st = h.bare script st' := by
  have hcontent : (if st.isStarting then g.store.store else .empty) =
      if st'.isStarting then h.store.store else .empty := by
    rw [hst]
    split
    · rename_i hstarting
      exact hstore hstarting
    · rfl
  simp only [bare, hg.lifecycle, hg.starts, hg.gets, hg.storeStarts, hg.storeGets, hg.startCalls,
    hg.createCalls, hg.taskStartCalls, hg.deliveries, hg.history, hcontent]

/-- Events are added. -/
theorem emitAll (hg : g.Agrees h) (es : List Event) : (g.emitAll 0 es).Agrees (h.emitAll 0 es) := by
  rw [emitAll_eq, emitAll_eq]
  refine { hg with history := ?_ }
  rw [eventsOf_append, eventsOf_append, ← List.map_reverse, ← List.map_reverse, eventsOf_map_self,
    eventsOf_map_self, trail_append, trail_append, hg.history]

/-- An event is added. -/
theorem emit (hg : g.Agrees h) (e : Event) : (g.emit 0 e).Agrees (h.emit 0 e) :=
  hg.emitAll [e]

/-- A connector is started, with the timeout of commits or without it. -/
theorem emitStart (hg : g.Agrees h) (properties : Properties) :
    (g.emit 0 (.startConnector properties.untimed)).Agrees
      (h.emit 0 (.startConnector properties)) := by
  refine { hg with history := ?_ }
  have hstart : ∀ es : List Event, trail (.startConnector properties.untimed :: es) =
      trail (.startConnector properties :: es) := by
    intro es
    rw [trail, trail, List.filterMap_cons, List.filterMap_cons]
    simp only [Event.bare?, Properties.untimed_untimed]
  rw [Host.emit, Host.emit, eventsOf_cons_self, eventsOf_cons_self, hstart]
  exact (trail_append [_] _).trans ((congrArg _ hg.history).trans (trail_append [_] _).symm)

/-- A run goes on. -/
theorem goesOn (hg : g.Agrees h) (ha : b.bare s = a.bare s)
    (hstore : a.stage.isStarting = true → g.store.store = h.store.store) :
    (Progress.goesOn b g).toBare? s script = (Progress.goesOn a h).toBare? s script := by
  have hstage : b.stage.isStarting = a.stage.isStarting := by
    rw [← Stage.isStarting_bare, ← Stage.isStarting_bare a.stage]
    exact congrArg (fun a => a.stage.isStarting) ha
  have hhost : g.bare script (.active b) = h.bare script (.active a) := hg.bare_eq hstage hstore
  simp only [Progress.toBare?, toBare, RunStatus.bare, ha, hhost]

/-- A run goes on in its loop, or on its way out. -/
theorem goesPast (hg : g.Agrees h) (ha : b.bare s = a.bare s)
    (hstage : a.stage.isStarting = false) :
    (Progress.goesOn b g).toBare? s script = (Progress.goesOn a h).toBare? s script :=
  hg.goesOn ha fun hstarting => absurd (hstage.symm.trans hstarting) Bool.false_ne_true

/-- A run is over. -/
theorem ends (hg : g.Agrees h) (outcome : RunEnd) :
    (Progress.ends outcome g).toBare? s script = (Progress.ends outcome h).toBare? s script := by
  have hhost : g.bare script (.ended outcome) = h.bare script (.ended outcome) :=
    hg.bare_eq rfl nofun
  simp only [Progress.toBare?, toBare, hhost]

/-- The lifecycles change. -/
theorem withLifecycle (hg : g.Agrees h) {l l' : Lifecycle} (hl : l = l') :
    { g with lifecycle := l }.Agrees { h with lifecycle := l' } :=
  { hg with lifecycle := hl }

/-- The connector's start is called. -/
theorem withStartCall (hg : g.Agrees h) :
    { g with startCalls := g.startCalls + 1 }.Agrees { h with startCalls := h.startCalls + 1 } :=
  { hg with startCalls := congrArg (· + 1) hg.startCalls }

/-- A task is asked for. -/
theorem withCreateCall (hg : g.Agrees h) :
    { g with createCalls := g.createCalls + 1 }.Agrees
      { h with createCalls := h.createCalls + 1 } :=
  { hg with createCalls := congrArg (· + 1) hg.createCalls }

/-- The task's start is called. -/
theorem withTaskStartCall (hg : g.Agrees h) :
    { g with taskStartCalls := g.taskStartCalls + 1 }.Agrees
      { h with taskStartCalls := h.taskStartCalls + 1 } :=
  { hg with taskStartCalls := congrArg (· + 1) hg.taskStartCalls }

/-- The polls that are to come change. -/
theorem withFeed (hg : g.Agrees h) (feed feed' : List Polled) :
    { g with feed }.Agrees { h with feed := feed' } :=
  { hg with }

/-- A record is handed over. -/
theorem withDelivery (hg : g.Agrees h) :
    { g with deliveries := g.deliveries + 1 }.Agrees { h with deliveries := h.deliveries + 1 } :=
  { hg with deliveries := congrArg (· + 1) hg.deliveries }

/-- The start of the store is called. -/
theorem withStart (hg : g.Agrees h) :
    { g with store := g.store.callStart.2 }.Agrees { h with store := h.store.callStart.2 } :=
  { hg with storeStarts := congrArg (· + 1) hg.storeStarts }

/-- A look-up in the store is called. -/
theorem withGet (hg : g.Agrees h) :
    { g with store := g.store.callGet.2 }.Agrees { h with store := h.store.callGet.2 } :=
  { hg with storeGets := congrArg (· + 1) hg.storeGets }

/-- A run gives its place free. -/
theorem close (hg : g.Agrees h) (outcome : RunEnd) :
    (g.close 0 outcome).toBare? s script = (h.close 0 outcome).toBare? s script :=
  ((hg.withLifecycle (congrArg _ hg.lifecycle)).emit _).ends outcome

/-- A run returns. -/
theorem leave (hg : g.Agrees h) (result : RunResult) :
    (g.leave 0 result).toBare? s script = (h.leave 0 result).toBare? s script := by
  cases result with
  | error e => exact (hg.emit _).close _
  | ok exit => exact hg.close _

/-- A run leaves its loop with an interrupt. -/
theorem exitInterrupted (hg : g.Agrees h) (ha : b.connector = a.connector) :
    (g.exitInterrupted 0 b).toBare? s script = (h.exitInterrupted 0 a).toBare? s script := by
  refine ((hg.withLifecycle (congrArg _ hg.lifecycle)).emit _).goesPast ?_ rfl
  simp only [Active.bare, ha]

/-- The loop of a run begins. -/
theorem beginLoop (hg : g.Agrees h) (ha : b.connector = a.connector) :
    (g.beginLoop 0 b).toBare? s script = (h.beginLoop 0 a).toBare? s script := by
  refine (hg.emit _).goesPast ?_ rfl
  simp only [Active.bare, ha]

/-- A task does not start. -/
theorem refuseTask (hg : g.Agrees h) (ha : b.connector = a.connector) (e : TaskError) :
    (g.refuseTask 0 b e).toBare? s script = (h.refuseTask 0 a e).toBare? s script := by
  refine (hg.emit _).goesPast ?_ rfl
  simp only [Active.bare, ha]

end Agrees

/-- As long as a run looks into the store, its content is left. -/
theorem store_bare (hst : st.isStarting = true) :
    (h.bare script st).store.store = h.store.store :=
  if_pos hst

/-! ### On the way in -/

/-- A timeout other than zero is as good as any. -/
theorem validate_bare (htime : 0 < s.config.flushTimeout) :
    s.bare.config.validate = s.config.validate := by
  have hproblems : s.bare.config.problems = s.config.problems := by
    have hne : s.config.flushTimeout ≠ 0 := Nat.ne_of_gt htime
    simp [Config.problems, Setup.bare, Config.untimed, hne]
  rw [Config.validate, hproblems, Config.validate]

/-- A pending call that is back is back when it is looked at without time. -/
theorem isBack_bare {call : PendingCall} {now : Nat} (h : call.isBack now = true) :
    call.bare.isBack 0 = true := by
  rw [PendingCall.isBack] at h
  split at h
  · rename_i hu
    simp [PendingCall.isBack, PendingCall.bare, hu]
  · cases h

/-- A call of the store is waited for, or brings the run down. -/
theorem Agrees.awaits (hg : g.Agrees h) (hstore : g.store.store = h.store.store) (outcome : Outcome)
    (now now' : Nat) {x : Connector} {w w' : OffsetWriter} {n n' t t' : Nat}
    {stage : PendingCall → Stage}
    (hstage : ∀ call call', call.bare = call'.bare → (stage call).bare = (stage call').bare) :
    Progress.toBare? s script (match outcome.pending? now with
      | none => g.close 0 .panicked
      | some call => .goesOn ⟨x, w, n, t, stage call⟩ g) =
    Progress.toBare? s script (match outcome.pending? now' with
      | none => h.close 0 .panicked
      | some call => .goesOn ⟨x, w', n', t', stage call⟩ h) := by
  have waits : ∀ call call' : PendingCall, call.bare = call'.bare →
      (Progress.goesOn ⟨x, w, n, t, stage call⟩ g).toBare? s script =
        (Progress.goesOn ⟨x, w', n', t', stage call'⟩ h).toBare? s script := by
    intro call call' hcall
    refine hg.goesOn ?_ fun _ => hstore
    simp only [Active.bare, hstage call call' hcall]
  cases outcome with
  | answers delay error => exact waits _ _ rfl
  | hangs | lands => exact waits _ _ rfl
  | panics => exact hg.close _

/-- The first step of a run. -/
theorem begin_bare (htime : 0 < s.config.flushTimeout) :
    ((h.bare script .requested).begin s.bare 0).toBare? s script =
      (h.begin s 0).toBare? s script := by
  have hg := agrees_bare script .requested h
  have hstore : (h.bare script .requested).store.store = h.store.store := store_bare rfl
  have hfound : s.bare.registry.create? s.bare.config.connectorClass =
    s.registry.create? s.config.connectorClass := rfl
  rw [begin, begin, hg.lifecycle]
  split
  · exact hg.ends _
  · rename_i l _
    have haccepted := (hg.withLifecycle (l := l) rfl).emit .accepted
    dsimp only
    rw [validate_bare htime]
    split
    · exact haccepted.leave _
    · rw [hfound]
      cases s.registry.create? s.config.connectorClass with
      | none => exact haccepted.leave _
      | some connector =>
        have hcalled := ((haccepted.emit .createConnector).emit .startStore).withStart
        refine hcalled.awaits hstore (h.store.plan.starts h.store.startCalls) _ _ ?_
        intro call call' hcall
        simp only [Stage.bare, hcall]

section In

variable {call : PendingCall} {properties : Properties} {request : List (Partition × Bytes)}

/-- The store's start is waited for. -/
theorem startingStore_bare (ha : a.stage = .startingStore call)
    (hback : call.isBack h.now = true) :
    ((h.bare script (.active a)).startingStore s.bare 0 (a.bare s) call.bare).toBare? s script =
      (h.startingStore s 0 a call).toBare? s script := by
  have hg := agrees_bare script (.active a) h
  have hstore : (h.bare script (.active a)).store.store = h.store.store :=
    store_bare (RunStatus.isStarting_of_stage ha rfl)
  have hback' : call.bare.isBack (h.bare script (.active a)).now = true := isBack_bare hback
  rw [startingStore, startingStore, hback, hback']
  dsimp only [PendingCall.bare]
  split
  · contradiction
  · split
    · exact hg.leave _
    · simp only [PlannedStore.start, hstore]
      cases h.store.store.start with
      | error e => exact hg.leave _
      | ok store =>
        have hstarted : { h.bare script (.active a) with
            store := { (h.bare script (.active a)).store with store } }.Agrees
              { h with store := { h.store with store } } := { hg with }
        exact ((hstarted.emit .storeStarted).emit _).goesOn rfl fun _ => rfl

/-- The connector starts, or fails to. -/
theorem startingConnector_bare (ha : a.stage = .startingConnector) :
    ((h.bare script (.active a)).startingConnector s.bare 0 (a.bare s)).toBare? s script =
      (h.startingConnector s 0 a).toBare? s script := by
  have hg := agrees_bare script (.active a) h
  have hstore : (h.bare script (.active a)).store.store = h.store.store :=
    store_bare (RunStatus.isStarting_of_stage ha rfl)
  have hstarted := hg.withStartCall.emitStart s.config.properties
  have herror : (a.bare s).connector.startError (h.bare script (.active a)).startCalls =
    a.connector.startError h.startCalls := rfl
  rw [startingConnector, startingConnector, herror]
  cases a.connector.startError h.startCalls with
  | some e => exact (hstarted.emit _).goesPast rfl rfl
  | none => exact hstarted.goesOn rfl fun _ => hstore

/-- A task is created, or cannot be. -/
theorem creatingTask_bare (ha : a.stage = .creatingTask) :
    ((h.bare script (.active a)).creatingTask s.bare 0 (a.bare s)).toBare? s script =
      (h.creatingTask s 0 a).toBare? s script := by
  have hg := agrees_bare script (.active a) h
  have hstore : (h.bare script (.active a)).store.store = h.store.store :=
    store_bare (RunStatus.isStarting_of_stage ha rfl)
  have hasked := hg.emit (.askTaskConfigs 1)
  have hconfigs : (a.bare s).connector.taskConfigs = a.connector.taskConfigs := rfl
  rw [creatingTask, creatingTask, hconfigs]
  cases a.connector.taskConfigs with
  | nil => exact hasked.goesPast rfl rfl
  | cons properties _ =>
    have hcreated := hasked.withCreateCall.emit .createTask
    have herror : (a.bare s).connector.createError
        ((h.bare script (.active a)).emit 0 (.askTaskConfigs 1)).createCalls =
      a.connector.createError h.createCalls := rfl
    have hcalls : (h.emit 0 (.askTaskConfigs 1)).createCalls = h.createCalls := rfl
    dsimp only
    rw [herror, hcalls]
    cases a.connector.createError h.createCalls with
    | some e => exact hcreated.goesPast rfl rfl
    | none => exact (hcreated.emit _).goesOn rfl fun _ => hstore

/-- A task starts, or fails to, or asks for committed offsets first. -/
theorem startingTask_bare (ha : a.stage = .startingTask properties) :
    ((h.bare script (.active a)).startingTask s.bare 0 (a.bare s) properties).toBare? s script =
      (h.startingTask s 0 a properties).toBare? s script := by
  have hg := agrees_bare script (.active a) h
  have hstore : (h.bare script (.active a)).store.store = h.store.store :=
    store_bare (RunStatus.isStarting_of_stage ha rfl)
  have hstarted := hg.withTaskStartCall.emit (.startTask properties)
  have herror : (a.bare s).connector.taskStartError (h.bare script (.active a)).taskStartCalls =
    a.connector.taskStartError h.taskStartCalls := rfl
  have hresumes : (a.bare s).connector.resumes = a.connector.resumes := rfl
  have hformat : s.bare.offsetFormat = s.offsetFormat := rfl
  rw [startingTask, startingTask, herror, hresumes, hformat]
  cases a.connector.taskStartError h.taskStartCalls with
  | some e => exact hstarted.refuseTask rfl e
  | none =>
    cases a.connector.resumes with
    | none => exact hstarted.beginLoop rfl
    | some ps =>
      dsimp only
      cases s.offsetFormat.storeKeys ps with
      | error e => exact hstarted.refuseTask rfl _
      | ok keys =>
        have hcalled := (hstarted.withGet).emit (.getFromStore keys)
        refine hcalled.awaits hstore (h.store.plan.gets h.store.getCalls) _ _ ?_
        intro call call' hcall
        simp only [Stage.bare, hcall]

/-- The committed offsets are waited for, and given to the task. -/
theorem resuming_bare (ha : a.stage = .resuming call request)
    (hback : call.isBack h.now = true) :
    ((h.bare script (.active a)).resuming s.bare 0 (a.bare s) call.bare request).toBare? s script =
      (h.resuming s 0 a call request).toBare? s script := by
  have hg := agrees_bare script (.active a) h
  have hstore : (h.bare script (.active a)).store.store = h.store.store :=
    store_bare (RunStatus.isStarting_of_stage ha rfl)
  have hback' : call.bare.isBack (h.bare script (.active a)).now = true := isBack_bare hback
  have hformat : s.bare.offsetFormat = s.offsetFormat := rfl
  rw [resuming, resuming, hback, hback', hstore, hformat]
  dsimp only [PendingCall.bare]
  split
  · contradiction
  · split
    · exact hg.refuseTask rfl _
    · exact ((hg.emitAll _).emit _).beginLoop rfl

end In

/-! ### In the loop -/

/-- The top of the loop. -/
theorem looping_bare :
    ((h.bare script (.active a)).looping 0 (a.bare s)).toBare? s script =
      (h.looping 0 a).toBare? s script := by
  have hg := agrees_bare script (.active a) h
  rw [looping, looping, hg.lifecycle]
  split
  · exact hg.exitInterrupted rfl
  · split
    · exact (hg.emit _).goesPast rfl rfl
    · exact hg.goesPast rfl rfl

/-- What a poll gave is looked at. -/
theorem Agrees.receive (hg : g.Agrees h) (ha : b.connector = a.connector) (result : Polled) :
    (g.receive 0 b result).toBare? s script = (h.receive 0 a result).toBare? s script := by
  have goes : ∀ {stage : Stage} {w w' : OffsetWriter}, stage.isStarting = false →
      (Progress.goesOn { b with writer := w, stage } g).toBare? s script =
        (Progress.goesOn { a with writer := w', stage } h).toBare? s script := by
    intro stage w w' hstage
    refine hg.goesPast ?_ hstage
    simp only [Active.bare, ha]
  match result with
  | .nothing | .batch [] => exact goes rfl
  | .batch (x :: xs) => exact goes rfl
  | .panics => exact hg.close _
  | .fails e =>
    cases e with
    | interrupted => exact hg.exitInterrupted ha
    | _ => exact goes rfl

/-- A poll is waited for, and what it gave is looked at. -/
theorem polling_bare (hfed : h.lifecycle.interrupted = false →
      ∃ feed, h.feed = script (polls (trail (eventsOf 0 h.history))) :: feed) :
    ((h.bare script (.active a)).polling 0 (a.bare s)).toBare? s script =
      (h.polling 0 a).toBare? s script := by
  have hg := agrees_bare script (.active a) h
  rw [polling, polling, hg.lifecycle]
  cases hinterrupted : h.lifecycle.interrupted with
  | true => exact hg.exitInterrupted rfl
  | false =>
    obtain ⟨feed, hfeed⟩ := hfed hinterrupted
    have hconnector : (a.bare s).connector = a.connector := rfl
    rw [hfeed]
    exact ((hg.withFeed [] feed).emit _).receive hconnector _

/-- A record is delivered, or the last one was. -/
theorem delivering_bare (rest batch : List Record) :
    ((h.bare script (.active a)).delivering s.bare 0 (a.bare s) rest batch).toBare? s script =
      (h.delivering s 0 a rest batch).toBare? s script := by
  have hg := agrees_bare script (.active a) h
  cases rest with
  | nil =>
    have hmeasured : ∀ f f', ((h.bare script (.active a)).measure f).Agrees (h.measure f') :=
      fun _ _ => { hg with }
    exact ((hmeasured _ _).emit _).goesPast rfl rfl
  | cons x rest =>
    have hreaction : s.bare.consumer (h.bare script (.active a)).deliveries =
      s.consumer h.deliveries := rfl
    simp only [delivering, foldl_control_eq, hreaction]
    generalize s.consumer h.deliveries = reaction
    have hasked := ((hg.withDelivery.emit (.deliver x)).withLifecycle
      (congrArg (fun l => l.heedAll reaction.asks) hg.lifecycle)).emitAll
        (h.lifecycle.replies reaction.asks)
    cases reaction.verdict with
    | accepts => exact (hasked.emit _).goesPast rfl rfl
    | rejects report => exact hasked.goesPast rfl rfl
    | panics => exact hasked.close _

/-! ### Every step -/

/-- What a run waits for before it takes a step that does not commit: its call of the store is back,
and a poll gave what the script says. -/
structure Ready (script : Nat → Polled) (h : Host) (stage : Stage) : Prop where
  back : ∀ call, stage = .startingStore call ∨ (∃ request, stage = .resuming call request) →
    call.isBack h.now = true
  fed : stage = .polling → h.lifecycle.interrupted = false →
    ∃ feed, h.feed = script (polls (trail (eventsOf 0 h.history))) :: feed

/-- **A step that does not commit is a step of the bare host.** -/
theorem step_bare (hno : a.stage.isCommitting = false) (hready : h.Ready script a.stage) :
    ((h.bare script (.active a)).step s.bare 0 (a.bare s)).toBare? s script =
      (h.step s 0 a).toBare? s script := by
  have hg := agrees_bare script (.active a) h
  have hbare : (a.bare s).stage = a.stage.bare := rfl
  rw [step, step, hbare]
  cases ha : a.stage with
  | startingStore call => exact startingStore_bare ha (hready.back call (.inl ha))
  | startingConnector => exact startingConnector_bare ha
  | creatingTask => exact creatingTask_bare ha
  | startingTask properties => exact startingTask_bare ha
  | resuming call request => exact resuming_bare ha (hready.back call (.inr ⟨request, ha⟩))
  | looping => exact looping_bare
  | polling => exact polling_bare (hready.fed ha)
  | delivering rest batch => exact delivering_bare rest batch
  | consulting | flushing =>
    rw [ha] at hno
    cases hno
  | stoppingTask result | stoppingConnector result | stoppingStore result =>
    exact (hg.emit _).goesPast rfl rfl
  | leaving result => exact hg.leave result

/-- Events of commits leave no trail. -/
theorem Agrees.hush (hg : g.Agrees h) {es : List Event} (hes : ∀ e ∈ es, e.bare? = none) :
    (g.emitAll 0 es).Agrees h := by
  have htrail : trail es.reverse = [] :=
    List.filterMap_eq_nil_iff.mpr fun e he => hes e (List.mem_reverse.mp he)
  rw [emitAll_eq]
  refine { hg with history := ?_ }
  rw [eventsOf_append, ← List.map_reverse, eventsOf_map_self, trail_append, htrail, hg.history]
  rfl

/-- An event of a commit leaves no trail. -/
theorem Agrees.hushOne (hg : g.Agrees h) {e : Event} (he : e.bare? = none) :
    (g.emit 0 e).Agrees h :=
  hg.hush (List.forall_mem_singleton.mpr he)

/-- **After a commit, or after none, a run is where it was without it.** -/
theorem Agrees.afterCommit (hg : g.Agrees h) {final : Bool}
    (ha : a.stage.bare = (afterCommit a final).stage) (hc : b.connector = a.connector)
    (hb : b.stage.bare = (Host.afterCommit a final).stage) :
    (Progress.goesOn b g).toBare? s script = some (h.toBare s script (.active a)) := by
  refine hg.goesOn (a := a) ?_ fun hstart => ?_
  · simp only [Active.bare, hc, ha, hb]
  · rw [← Stage.isStarting_bare, ha] at hstart
    cases final <;> cases hstart

/-- The policy is consulted. -/
theorem consulting_toBare? {final : Bool} (ha : a.stage = .consulting final) :
    (h.consulting s 0 a final).toBare? s script = some (h.toBare s script (.active a)) := by
  have hstage : a.stage.bare = (afterCommit a final).stage := by
    rw [ha]
    rfl
  have hafter : (afterCommit a final).stage.bare = (afterCommit a final).stage := by
    cases final <;> rfl
  have hprobed : (h.emitAll 0 ((s.policy.probes a.records (h.now - a.lastCommit)).map
      fun p => Event.probed p.1 p.2)).Agrees h := by
    refine (Agrees.refl h).hush fun e he => ?_
    obtain ⟨p, -, rfl⟩ := List.mem_map.mp he
    rfl
  have hasked := hprobed.hushOne (e := .consulted a.records (h.now - a.lastCommit)
    (s.policy.fires a.records (h.now - a.lastCommit))) rfl
  rw [consulting]
  split
  · rw [flush]
    split
    · exact Agrees.afterCommit { (hasked.hushOne rfl).hushOne rfl with } hstage rfl hafter
    · exact hasked.afterCommit hstage rfl hafter
    · rw [submit]
      split
      · exact hasked.afterCommit hstage rfl hafter
      · exact Agrees.afterCommit { ((hasked.hushOne rfl).hushOne rfl).hushOne rfl with } hstage rfl
          hafter
      · exact (Agrees.hushOne { hasked with } rfl).afterCommit hstage rfl rfl
  · exact hasked.afterCommit hstage rfl hafter

/-- A flush is waited for. -/
theorem flushing_toBare? {number deadline : Nat} {final : Bool}
    (ha : a.stage = .flushing number deadline final) :
    (h.flushing 0 a number deadline final).toBare? s script = none ∨
      (h.flushing 0 a number deadline final).toBare? s script =
        some (h.toBare s script (.active a)) := by
  have hstage : a.stage.bare = (afterCommit a final).stage := by
    rw [ha]
    rfl
  have hafter : (afterCommit a final).stage.bare = (afterCommit a final).stage := by
    cases final <;> rfl
  have hrefl := Agrees.refl h
  have givesUp : ∀ {why}, why.isOfFlush = true →
      (h.giveUp 0 a number final why).toBare? s script = some (h.toBare s script (.active a)) := by
    intro why hwhy
    have hcancelled : { h with writes := h.writes.modify number Write.cancel }.Agrees h :=
      { hrefl with }
    have hnoticed := hcancelled.hushOne (e := .notice why) (if_pos hwhy)
    exact Agrees.afterCommit { hnoticed.hushOne (e := .givenUp number) rfl with } hstage rfl hafter
  have hmeasured : ∀ f, (h.measure f).Agrees h := fun _ => { hrefl with }
  rw [flushing]
  split
  · exact .inr (givesUp rfl)
  · split
    · exact .inr (givesUp rfl)
    · split
      · rw [commit]
        split
        · exact .inr (((hmeasured _).hushOne rfl).afterCommit hstage rfl hafter)
        · exact .inr ((((hmeasured _).hushOne rfl).hushOne rfl).afterCommit hstage rfl hafter)
      · exact .inr (givesUp rfl)
      · split
        · exact .inr (givesUp rfl)
        · exact .inl rfl

/-- **A step that commits leaves the bare host alone**, if it need not wait. -/
theorem step_bare_of_isCommitting (hcommit : a.stage.isCommitting = true) :
    (h.step s 0 a).toBare? s script = none ∨
      (h.step s 0 a).toBare? s script = some (h.toBare s script (.active a)) := by
  rw [step]
  cases ha : a.stage with
  | consulting final => exact .inr (consulting_toBare? ha)
  | flushing number deadline final => exact flushing_toBare? ha
  | _ =>
    rw [ha] at hcommit
    cases hcommit

/-- **What a run does next, the bare host does**, unless the run commits. -/
theorem bareStep_toBare (htime : 0 < s.config.flushTimeout) {b : Bare}
    (hready : ∀ a, st = .active a → a.stage.isCommitting = false ∧ h.Ready script a.stage)
    (hb : (h.progress s st).toBare? s script = some b) :
    bareStep s script (h.toBare s script st) = b := by
  cases st with
  | requested => exact congrArg (Option.getD · _) ((begin_bare htime).trans hb)
  | active a =>
    obtain ⟨hno, hback⟩ := hready a rfl
    exact congrArg (Option.getD · _) ((step_bare hno hback).trans hb)
  | ended outcome => cases hb

end Host

end ChangeCapture
