import ChangeCapture.Offsets.Reader
import ChangeCapture.Run.Host

/-!
# The steps of a run

A run is accepted if no other is active. It then starts the store, the connector and its task,
polls, delivers and commits in a loop, and stops task, connector and store on the way out, as far as
they were started. Each function below is one step: it says where a run stands after it, or that the
run has to wait.

A flush is confirmed only when the store's success is seen within the commit timeout. Any other
outcome gives the flush up and leaves the counters as they are, so the next commit tries the same
positions again. While a flush is waited for, an interrupt goes before a write that has come to an
end, and that before a deadline that has come.

## Main definitions

* `Progress`: what a step leads to.
* `Host.begin`: the first step of a run.
* `Host.step`: the step of an accepted run from where it stands.
* `Host.advance`: a step of the run of a number.
-/

namespace ChangeCapture

/-- What a step of a run leads to. -/
inductive Progress where
  /-- The run waits; nothing has changed. -/
  | blocked
  | goesOn (a : Active) (h : Host)
  | ends (outcome : RunEnd) (h : Host)

namespace Host

/-! ### The end of a run -/

/-- An accepted run is over: it gives its place free. -/
def close (r : Nat) (outcome : RunEnd) (h : Host) : Progress :=
  .ends outcome ({ h with lifecycle := h.lifecycle.finish }.emit r (.ended outcome))

/-- An accepted run returns. A failure is reported first. -/
def leave (r : Nat) (result : RunResult) (h : Host) : Progress :=
  match result with
  | .error e => (h.notify r .runFailed).close r (.returned (.error e))
  | .ok exit => h.close r (.returned (.ok exit))

/-! ### Starting -/

/-- **The first step of a run.** A run beside an active one is over at once and touches nothing. The
configuration and the class are looked at before anything is started. -/
def begin (s : Setup) (r : Nat) (h : Host) : Progress :=
  match h.lifecycle.start? with
  | none => .ends (.returned (.ok .alreadyRunning)) h
  | some lifecycle =>
    let h := { h with lifecycle }.emit r .accepted
    match s.config.validate with
    | .error e => h.leave r (.error (.config e))
    | .ok () =>
      match s.registry.create? s.config.connectorClass with
      | none => h.leave r (.error (.unknownClass s.config.connectorClass))
      | some connector =>
        let h := (h.emit r .createConnector).emit r .startStore
        let (outcome, store) := h.store.callStart
        let h := { h with store }
        match outcome.pending? h.now with
        | none => h.close r .panicked
        | some call =>
          .goesOn
            { connector, writer := { format := s.offsetFormat }, stage := .startingStore call } h

/-- The store's start is waited for. A store that does not start is not stopped. -/
def startingStore (s : Setup) (r : Nat) (a : Active) (call : PendingCall) (h : Host) : Progress :=
  if !call.isBack h.now then .blocked
  else
    match call.error with
    | some e => h.leave r (.error (.offset e))
    | none =>
      match h.store.start with
      | .error e => h.leave r (.error (.offset e))
      | .ok store =>
        .goesOn { a with stage := .startingConnector }
          (({ h with store }.emit r .storeStarted).emit r (.equipConnector s.config.name))

/-- The connector starts. One that fails to is stopped all the same. -/
def startingConnector (s : Setup) (r : Nat) (a : Active) (h : Host) : Progress :=
  let error := a.connector.startError h.startCalls
  let h := { h with startCalls := h.startCalls + 1 }.emit r (.startConnector s.config.properties)
  match error with
  | some e =>
    .goesOn { a with stage := .stoppingConnector (.error (.task e)) }
      (h.notify r .connectorNotStarted)
  | none => .goesOn { a with stage := .creatingTask } h

/-- The connector's first task configuration is taken and a task created. -/
def creatingTask (s : Setup) (r : Nat) (a : Active) (h : Host) : Progress :=
  let h := h.emit r (.askTaskConfigs 1)
  match a.connector.taskConfigs with
  | [] =>
    .goesOn
      { a with
        stage := .stoppingConnector
          (.error (.task (.noTaskConfig s.config.connectorClass))) } h
  | properties :: _ =>
    let error := a.connector.createError h.createCalls
    let h := { h with createCalls := h.createCalls + 1 }.emit r .createTask
    match error with
    | some e => .goesOn { a with stage := .stoppingConnector (.error (.task e)) } h
    | none => .goesOn { a with stage := .startingTask properties } (h.emit r .equipTask)

/-- A task that does not start is not stopped; the connector is. -/
def refuseTask (r : Nat) (a : Active) (e : TaskError) (h : Host) : Progress :=
  .goesOn { a with stage := .stoppingConnector (.error (.task e)) } (h.notify r .taskNotStarted)

/-- The poll loop begins, and with it the time since the last commit. -/
def beginLoop (r : Nat) (a : Active) (h : Host) : Progress :=
  .goesOn { a with stage := .looping, records := 0, lastCommit := h.now } (h.emit r .loopBegun)

/-- The task starts, and asks for the committed offsets it goes on from. -/
def startingTask (s : Setup) (r : Nat) (a : Active) (properties : Properties)
    (h : Host) : Progress :=
  let error := a.connector.taskStartError h.taskStartCalls
  let h := { h with taskStartCalls := h.taskStartCalls + 1 }.emit r (.startTask properties)
  match error, a.connector.resumes with
  | some e, _ => h.refuseTask r a e
  | none, none => h.beginLoop r a
  | none, some ps =>
    match s.offsetFormat.storeKeys ps with
    | .error e => h.refuseTask r a (.offset e)
    | .ok keys =>
      let (outcome, store) := h.store.callGet
      let h := { h with store }.emit r (.getFromStore keys)
      match outcome.pending? h.now with
      | none => h.close r .panicked
      | some call => .goesOn { a with stage := .resuming call (ps.zip keys) } h

/-- The committed offsets are waited for. -/
def resuming (s : Setup) (r : Nat) (a : Active) (call : PendingCall)
    (request : List (Partition × Bytes)) (h : Host) : Progress :=
  if !call.isBack h.now then .blocked
  else
    match call.error with
    | some e => h.refuseTask r a (.offset e)
    | none =>
      let found := s.offsetFormat.collect (h.store.store.get (request.map Prod.snd)) request
      let h := h.emitAll r (found.notices.map .notice)
      (h.emit r (.resumed found.offsets)).beginLoop r a

/-! ### Polling and delivering -/

/-- An interrupted run takes note of it and consults the policy a last time. -/
def exitInterrupted (r : Nat) (a : Active) (h : Host) : Progress :=
  .goesOn { a with stage := .consulting true }
    ({ h with lifecycle := h.lifecycle.clearInterrupt }.emit r .interruptCleared)

/-- The top of the loop: an interrupt goes before everything, and then a run goes on while it is not
asked to stop. -/
def looping (r : Nat) (a : Active) (h : Host) : Progress :=
  if h.lifecycle.interrupted then h.exitInterrupted r a
  else if h.lifecycle.isRunning then .goesOn { a with stage := .polling } (h.emit r .poll)
  else .goesOn { a with stage := .stoppingTask (.ok .stopped) } h

/-- What a poll gave is looked at. The last record of a batch is its position. -/
def receive (r : Nat) (a : Active) (h : Host) : Polled → Progress
  | .nothing | .batch [] => .goesOn { a with stage := .looping } h
  | .batch (x :: xs) =>
    let last := (x :: xs).getLast (List.cons_ne_nil x xs)
    .goesOn { a with writer := a.writer.record last.partition last.offset
                     stage := .delivering (x :: xs) (x :: xs) } h
  | .fails .interrupted => h.exitInterrupted r a
  | .fails e => .goesOn { a with stage := .stoppingTask (.error (.task e)) } h
  | .panics => h.close r .panicked

/-- A poll is waited for. An interrupt drops it, and it has then taken nothing. -/
def polling (r : Nat) (a : Active) (h : Host) : Progress :=
  if h.lifecycle.interrupted then h.exitInterrupted r a
  else
    match h.feed with
    | [] => .blocked
    | result :: feed => ({ h with feed }.emit r (.polled result)).receive r a result

/-- What a run's own consumer asks of it. -/
def control (r : Nat) (c : Control) (h : Host) : Host :=
  let granted := match c with
    | .stop => h.lifecycle.stop?
    | .interrupt => h.lifecycle.interrupt?
  { h with lifecycle := granted.getD h.lifecycle }.emit r (.controlled c granted.isSome)

/-- Every record of a batch was accepted: it is counted, and the policy is consulted. -/
def finishBatch (r : Nat) (a : Active) (batch : List Record) (h : Host) : Progress :=
  let records := a.records + batch.length
  let h := h.measure fun m =>
    ((m.add .batchesPolled 1).add .recordsDelivered batch.length).setPending records
  .goesOn { a with records, stage := .consulting false } (h.emit r (.delivered batch))

/-- One record is handed to the consumer. What it asks of the run comes before its verdict, and a
rejection ends the run. -/
def delivering (s : Setup) (r : Nat) (a : Active) (rest batch : List Record)
    (h : Host) : Progress :=
  match rest with
  | [] => h.finishBatch r a batch
  | record :: rest =>
    let reaction := s.consumer h.deliveries
    let h := { h with deliveries := h.deliveries + 1 }.emit r (.deliver record)
    let h := reaction.asks.foldl (fun h c => h.control r c) h
    match reaction.verdict with
    | .accepts => .goesOn { a with stage := .delivering rest batch } (h.emit r (.taken record))
    | .rejects report => .goesOn { a with stage := .stoppingTask (.error (.delivery report)) } h
    | .panics => h.close r .panicked

/-! ### Committing -/

/-- Where a run goes after a commit, or after none. -/
def afterCommit (a : Active) (final : Bool) : Active :=
  { a with stage := if final then .stoppingTask (.ok .interrupted) else .looping }

/-- The snapshot is handed to the background; its write has a number of its own. -/
def submit (r : Nat) (a : Active) (final : Bool) (deadline : Nat) (h : Host) : Progress :=
  match a.writer.submit with
  | (.nothing, writer) => .goesOn (afterCommit { a with writer } final) h
  | (.refused _, writer) =>
    .goesOn (afterCommit { a with writer } final)
      (h.emitAll r
        [.notice .snapshotUnwritable, .notice .writeFailed,
          .notice .flushNotSubmitted]).countFailure
  | (.submitted flushId entries, writer) =>
    let number := h.writes.length
    .goesOn { a with writer, stage := .flushing number deadline final }
      ((h.startWrite { run := r, flushId, entries }).emit r (.submitted number entries))

/-- A flush is begun. Without pending positions there is nothing to do. -/
def flush (s : Setup) (r : Nat) (a : Active) (final : Bool) (h : Host) : Progress :=
  match a.writer.beginFlush with
  | .error _ =>
    .goesOn (afterCommit a final)
      (h.emitAll r [.notice .snapshotOutstanding, .notice .flushNotBegun]).countFailure
  | .ok none => .goesOn (afterCommit a final) h
  | .ok (some writer) => h.submit r { a with writer } final (h.now + s.flushTimeout)

/-- **The policy is consulted**, and a flush begun if it says so. -/
def consulting (s : Setup) (r : Nat) (a : Active) (final : Bool) (h : Host) : Progress :=
  let elapsed := h.now - a.lastCommit
  let fired := s.policy.fires a.records elapsed
  let probes := (s.policy.probes a.records elapsed).map fun p => Event.probed p.1 p.2
  let h := (h.emitAll r probes).emit r (.consulted a.records elapsed fired)
  if fired then h.flush s r a final else .goesOn (afterCommit a final) h

/-- **A flush is confirmed**: its snapshot is committed and the counters begin anew. -/
def commit (r : Nat) (a : Active) (number flushId : Nat) (final : Bool) (h : Host) : Progress :=
  let h := h.measure fun m => (m.add .flushesCommitted 1).setPending 0
  match a.writer.complete? flushId with
  | some writer =>
    .goesOn (afterCommit { a with writer, records := 0, lastCommit := h.now } final)
      (h.emit r (.committed number))
  | none =>
    .goesOn (afterCommit { a with records := 0, lastCommit := h.now } final)
      ((h.notify r .staleCompletion).emit r (.committed number))

/-- **A flush is given up**: its write is cancelled, its positions are pending again, and the
failure is counted. -/
def giveUp (r : Nat) (a : Active) (number : Nat) (final : Bool) (why : Notice)
    (h : Host) : Progress :=
  let h := { h with writes := h.writes.modify number Write.cancel }
  .goesOn (afterCommit { a with writer := a.writer.cancelFlush } final)
    ((h.notify r why).emit r (.givenUp number)).countFailure

/-- **A flush is waited for.** -/
def flushing (r : Nat) (a : Active) (number deadline : Nat) (final : Bool) (h : Host) : Progress :=
  if h.lifecycle.interrupted then h.giveUp r a number final .flushInterrupted
  else
    match h.writes[number]? with
    | none => h.giveUp r a number final .flushFailed
    | some write =>
      match write.result? with
      | some none => h.commit r a number write.flushId final
      | some (some _) => h.giveUp r a number final .flushFailed
      | none => if deadline ≤ h.now then h.giveUp r a number final .flushTimedOut else .blocked

/-! ### The step of a run -/

/-- **The step of an accepted run** from where it stands. -/
def step (s : Setup) (r : Nat) (a : Active) (h : Host) : Progress :=
  match a.stage with
  | .startingStore call => h.startingStore s r a call
  | .startingConnector => h.startingConnector s r a
  | .creatingTask => h.creatingTask s r a
  | .startingTask properties => h.startingTask s r a properties
  | .resuming call request => h.resuming s r a call request
  | .looping => h.looping r a
  | .polling => h.polling r a
  | .delivering rest batch => h.delivering s r a rest batch
  | .consulting final => h.consulting s r a final
  | .flushing number deadline final => h.flushing r a number deadline final
  | .stoppingTask result =>
    .goesOn { a with stage := .stoppingConnector result } (h.emit r .stopTask)
  | .stoppingConnector result =>
    .goesOn { a with stage := .stoppingStore result } (h.emit r .stopConnector)
  | .stoppingStore result => .goesOn { a with stage := .leaving result } (h.emit r .stopStore)
  | .leaving result => h.leave r result

/-- Writes down how far a run is. -/
def setStatus (r : Nat) (status : RunStatus) (h : Host) : Host :=
  { h with runs := h.runs.modify r fun run => { run with status } }

/-- Writes down what a step led to, unless the run waits. -/
def absorb (r : Nat) : Progress → Option Host
  | .blocked => none
  | .goesOn a h => some (h.setStatus r (.active a))
  | .ends outcome h => some (h.setStatus r (.ended outcome))

/-- The step of a run that is to be dropped. One that was accepted gives its place free. -/
def dropRun (r : Nat) (h : Host) : RunStatus → Progress
  | .requested => .ends .aborted h
  | .active _ => h.close r .aborted
  | .ended _ => .blocked

/-- **A step of the run of a number**, if it need not wait. -/
def advance (s : Setup) (r : Nat) (h : Host) : Option Host :=
  match h.runs[r]? with
  | none => none
  | some run =>
    absorb r <|
      if run.aborting then h.dropRun r run.status
      else
        match run.status with
        | .requested => h.begin s r
        | .active a => h.step s r a
        | .ended _ => .blocked

end Host

end ChangeCapture
