import ChangeCapture.Proofs.Run.Requests
import ChangeCapture.Proofs.Run.Turns

/-!
# The flow of a run

Where a run goes depends on its lifecycle at two places only: at the top of its loop and while it
polls. There an interrupt goes before everything, and a run that was asked to stop polls no more.
Everything else that a step does to the lifecycle is to claim the place for runs, to give it free,
to take note of an interrupt, and to pass on what the consumer asks for.

## Main definitions

* `Phase`, `Stage.phase`: before the loop of a run, in it, and after it.
* `Host.Flow`: where a step leads, and what it does to the lifecycle.

## Main results

* `Host.advance_flows` — every step of a run flows so.
-/

namespace ChangeCapture

/-! ### Quiet events -/

/-- Whether an event tells neither how far the loop of a run is nor what was asked of it. -/
def Event.isQuiet : Event → Bool
  | .accepted | .loopBegun | .poll | .polled _ | .deliver _ | .controlled _ _ | .taken _
  | .delivered _ | .consulted _ _ _ | .interruptCleared => false
  | _ => true

/-- A run that fails does not exit. -/
theorem RunEnd.error_ne_ok (e : RunError) (exit : RunExit) :
    RunEnd.returned (.error e) ≠ .returned (.ok exit) := nofun

/-- A run that panics returns nothing. -/
theorem RunEnd.panicked_ne_returned (result : RunResult) : RunEnd.panicked ≠ .returned result :=
  nofun

/-- A run that is dropped returns nothing. -/
theorem RunEnd.aborted_ne_returned (result : RunResult) : RunEnd.aborted ≠ .returned result :=
  nofun

/-- The last events of a run that returns are quiet. -/
theorem isQuiet_closing (result : RunResult) : (closing result).all Event.isQuiet = true := by
  cases result <;> rfl

/-! ### Before and after the loop -/

/-- Where an accepted run is with respect to its loop. -/
inductive Phase where
  | startUp
  | loop
  /-- The loop is over, and a last commit is tried. -/
  | final
  /-- The run gives back what it holds, and then returns. -/
  | out (result : RunResult)

/-- Whether the loop of a run is over. -/
def Phase.isOver : Phase → Bool
  | .startUp | .loop => false
  | .final | .out _ => true

namespace Stage

/-- The phase of a stage. -/
def phase : Stage → Phase
  | .startingStore _ | .startingConnector | .creatingTask | .startingTask _ | .resuming _ _ =>
    .startUp
  | .looping | .polling | .delivering _ _ => .loop
  | .consulting final | .flushing _ _ final => if final then .final else .loop
  | .stoppingTask result | .stoppingConnector result | .stoppingStore result | .leaving result =>
    .out result

/-- Whether the loop of a run is over. -/
def isOver (stage : Stage) : Bool :=
  stage.phase.isOver

end Stage

namespace Host

/-! ### Where a step leads -/

/-- **Where a step leads**, what it adds, and what it makes of the lifecycle. -/
inductive Flow (s : Setup) (h : Host) :
    RunStatus → List Event → RunStatus → Lifecycle → Prop where
  /-- A run beside an active one returns at once. -/
  | passes (ht : h.lifecycle.isTaken = true) :
      Flow s h .requested [] (.ended (.returned (.ok .alreadyRunning))) h.lifecycle
  /-- A run is dropped before its first step. -/
  | drops : Flow s h .requested [] (.ended .aborted) h.lifecycle
  | enters {l : Lifecycle} {es : List Event} {a' : Active} (hl : h.lifecycle.start? = some l)
      (hes : es.all Event.isQuiet = true) (ha' : a'.stage.phase = .startUp) :
      Flow s h .requested (.accepted :: es) (.active a') l
  /-- A run is accepted, and fails in its first step. -/
  | turnsBack {l : Lifecycle} {es : List Event} {outcome : RunEnd}
      (hl : h.lifecycle.start? = some l) (hes : es.all Event.isQuiet = true)
      (ho : ∀ exit, outcome ≠ .returned (.ok exit)) :
      Flow s h .requested (.accepted :: es) (.ended outcome) l.finish
  | prepares {a a' : Active} {es : List Event} (ha : a.stage.phase = .startUp)
      (hes : es.all Event.isQuiet = true)
      (ha' : a'.stage.phase = .startUp ∨ ∃ e, a'.stage.phase = .out (.error e)) :
      Flow s h (.active a) es (.active a') h.lifecycle
  | begins {a a' : Active} {es : List Event} (ha : a.stage.phase = .startUp)
      (hes : es.all Event.isQuiet = true) (ha' : a'.stage = .looping) :
      Flow s h (.active a) (es ++ [.loopBegun]) (.active a') h.lifecycle
  | polls {a a' : Active} (ha : a.stage = .looping) (hgoes : h.lifecycle.isHalting = false)
      (ha' : a'.stage = .polling) : Flow s h (.active a) [.poll] (.active a') h.lifecycle
  | stops {a a' : Active} (ha : a.stage = .looping) (hi : h.lifecycle.interrupted = false)
      (ha' : a'.stage = .stoppingTask (.ok .stopped)) :
      Flow s h (.active a) [] (.active a') h.lifecycle
  /-- An interrupt is taken note of. -/
  | heeds {a a' : Active} (ha : a.stage = .looping ∨ a.stage = .polling)
      (hi : h.lifecycle.interrupted = true) (ha' : a'.stage = .consulting true) :
      Flow s h (.active a) [.interruptCleared] (.active a') h.lifecycle.clearInterrupt
  /-- A poll gives no data. -/
  | idles {a a' : Active} {result : Polled} (ha : a.stage = .polling)
      (hresult : result = .nothing ∨ result = .batch []) (ha' : a'.stage = .looping) :
      Flow s h (.active a) [.polled result] (.active a') h.lifecycle
  | receives {a a' : Active} {x : Record} {xs : List Record} (ha : a.stage = .polling)
      (ha' : a'.stage = .delivering (x :: xs) (x :: xs)) :
      Flow s h (.active a) [.polled (.batch (x :: xs))] (.active a') h.lifecycle
  /-- The task itself asks for a forced shutdown. -/
  | reports {a a' : Active} (ha : a.stage = .polling) (hi : h.lifecycle.interrupted = false)
      (ha' : a'.stage = .consulting true) :
      Flow s h (.active a) [.polled (.fails .interrupted), .interruptCleared] (.active a')
        h.lifecycle.clearInterrupt
  | fails {a a' : Active} {e : TaskError} (ha : a.stage = .polling) (he : e ≠ .interrupted)
      (ha' : a'.stage = .stoppingTask (.error (.task e))) :
      Flow s h (.active a) [.polled (.fails e)] (.active a') h.lifecycle
  | hands {a a' : Active} {x : Record} {rest batch : List Record} (cs : List Control)
      (ha : a.stage = .delivering (x :: rest) batch) (ha' : a'.stage = .delivering rest batch) :
      Flow s h (.active a) (.deliver x :: (h.lifecycle.replies cs ++ [.taken x])) (.active a')
        (h.lifecycle.heedAll cs)
  | rejects {a a' : Active} {x : Record} {rest batch : List Record} {report : Report}
      (cs : List Control) (ha : a.stage = .delivering (x :: rest) batch)
      (hv : (s.consumer h.deliveries).verdict = .rejects report)
      (ha' : a'.stage = .stoppingTask (.error (.delivery report))) :
      Flow s h (.active a) (.deliver x :: h.lifecycle.replies cs) (.active a')
        (h.lifecycle.heedAll cs)
  | delivers {a a' : Active} {batch : List Record} (ha : a.stage = .delivering [] batch)
      (ha' : a'.stage = .consulting false) :
      Flow s h (.active a) [.delivered batch] (.active a') h.lifecycle
  | consults {a a' : Active} {es es' : List Event} {records elapsed : Nat} {fired final : Bool}
      (ha : a.stage = .consulting final) (hes : es.all Event.isQuiet = true)
      (hes' : es'.all Event.isQuiet = true)
      (ha' : a'.stage = (afterCommit a final).stage ∨
        ∃ number deadline, a'.stage = .flushing number deadline final) :
      Flow s h (.active a) (es ++ .consulted records elapsed fired :: es') (.active a') h.lifecycle
  /-- A flush is confirmed or given up. -/
  | flushes {a a' : Active} {es : List Event} {number deadline : Nat} {final : Bool}
      (ha : a.stage = .flushing number deadline final) (hes : es.all Event.isQuiet = true)
      (ha' : a'.stage = (afterCommit a final).stage) :
      Flow s h (.active a) es (.active a') h.lifecycle
  | releases {a a' : Active} {es : List Event} {result : RunResult}
      (ha : a.stage.phase = .out result) (hes : es.all Event.isQuiet = true)
      (ha' : a'.stage.phase = .out result) : Flow s h (.active a) es (.active a') h.lifecycle
  | ends {a : Active} {es : List Event} {outcome : RunEnd} (hpoll : .poll ∉ es)
      (hstops : stopsGranted es ≤ h.lifecycle.isRunning.toNat)
      (ho : ∀ result, outcome = .returned result → es.all Event.isQuiet = true ∧
        (a.stage.phase = .out result ∨ a.stage.phase = .startUp ∧ ∃ e, result = .error e)) :
      Flow s h (.active a) es (.ended outcome) h.lifecycle.finish

/-- What is known of the flow of a step that was taken. -/
def Flows (s : Setup) (r : Nat) (h : Host) (st : RunStatus) (p : Progress) : Prop :=
  p.Leads fun st' h' => ∃ es, h.Adds r es h' ∧ Flow s h st es st' h'.lifecycle

variable {s : Setup} {r : Nat} {h h' h₁ : Host}

/-! ### The end of a run -/

/-- Quiet events grant no stop. -/
theorem stopsGranted_quiet {es : List Event} (hes : es.all Event.isQuiet = true) :
    stopsGranted es = 0 := by
  refine List.countP_eq_zero.mpr ?_
  intro e he
  have hquiet := List.all_eq_true.mp hes e he
  cases e <;> first | exact Bool.false_ne_true | cases hquiet

section Ends

variable {a : Active}

/-- A quiet end. -/
theorem Flow.endsQuietly {es : List Event} {outcome : RunEnd} (hes : es.all Event.isQuiet = true)
    (ho : ∀ result, outcome = .returned result →
      a.stage.phase = .out result ∨ a.stage.phase = .startUp ∧ ∃ e, result = .error e) :
    Flow s h (.active a) es (.ended outcome) h.lifecycle.finish := by
  refine .ends (Event.not_mem_of_all hes rfl) ?_ fun result heq => ⟨hes, ho result heq⟩
  rw [stopsGranted_quiet hes]
  exact Nat.zero_le _

/-- A run gives its place free. -/
theorem flows_close (es : List Event) {st : RunStatus} {outcome : RunEnd} (adds : h.Adds r es h₁)
    (flow : Flow s h st (es ++ [.ended outcome]) (.ended outcome) h₁.lifecycle.finish) :
    h.Flows s r st (h₁.close r outcome) := by
  have hfinish : h.Adds r es { h₁ with lifecycle := h₁.lifecycle.finish } :=
    ⟨adds.history, adds.runs, adds.now⟩
  exact ⟨_, hfinish.emit _, flow⟩

/-- A run returns. -/
theorem flows_leave (es : List Event) {st : RunStatus} {result : RunResult} (adds : h.Adds r es h₁)
    (flow : Flow s h st (es ++ closing result) (.ended (.returned result))
      h₁.lifecycle.finish) : h.Flows s r st (h₁.leave r result) := by
  cases result with
  | error e =>
    refine flows_close _ (adds.emit _) ?_
    rw [List.append_assoc]
    exact flow
  | ok exit => exact flows_close es adds flow

/-- A run that has not come to its loop fails. -/
theorem flows_leave_startUp {e : RunError} (ha : a.stage.phase = .startUp) :
    h.Flows s r (.active a) (h.leave r (.error e)) := by
  refine flows_leave [] ⟨rfl, rfl, rfl⟩ ?_
  refine .endsQuietly (isQuiet_closing (.error e)) ?_
  rintro _ ⟨⟩
  exact .inr ⟨ha, e, rfl⟩

/-- An active run breaks off. -/
theorem flows_close_active (es : List Event) {outcome : RunEnd} (adds : h.Adds r es h₁)
    (latch : h₁.lifecycle.latch = h.lifecycle.latch) (hpoll : .poll ∉ es)
    (hstops : stopsGranted es ≤ h.lifecycle.isRunning.toNat)
    (ho : ∀ result, outcome ≠ .returned result) :
    h.Flows s r (.active a) (h₁.close r outcome) := by
  refine flows_close es adds ?_
  have hfinish : h₁.lifecycle.finish = h.lifecycle.finish := by
    rw [Lifecycle.finish, Lifecycle.finish, latch]
  rw [hfinish]
  refine .ends ?_ ?_ fun result heq => absurd heq (ho result)
  · simpa using hpoll
  · rw [stopsGranted_append]
    exact hstops

end Ends

/-! ### On the way in -/

/-- The first step of a run. -/
theorem begin_flows (s : Setup) (r : Nat) (h : Host) : h.Flows s r .requested (h.begin s r) := by
  rw [begin]
  cases hl : h.lifecycle.start? with
  | none =>
    refine ⟨[], ⟨rfl, rfl, rfl⟩, .passes ?_⟩
    rw [Lifecycle.start?] at hl
    rw [Lifecycle.isTaken]
    cases hs : h.lifecycle.state <;> rw [hs] at hl <;> first | rfl | cases hl
  | some l =>
    have fails : ∀ {e : RunError}, h.Flows s r .requested
        (({ h with lifecycle := l }.emit r .accepted).leave r (.error e)) := fun {e} =>
      flows_leave [.accepted] ⟨rfl, rfl, rfl⟩
        (.turnsBack hl (isQuiet_closing (.error e)) (RunEnd.error_ne_ok e))
    dsimp only
    split
    · exact fails
    · split
      · exact fails
      · simp only [PlannedStore.callStart]
        split
        · exact flows_close [.accepted, .createConnector, .startStore] ⟨rfl, rfl, rfl⟩
            (.turnsBack hl rfl fun exit => RunEnd.panicked_ne_returned (.ok exit))
        · exact ⟨[.accepted, .createConnector, .startStore], ⟨rfl, rfl, rfl⟩, .enters hl rfl rfl⟩

section In

variable {a : Active} {call : PendingCall} {properties : Properties}
    {request : List (Partition × Bytes)}

/-- The store's start is waited for. -/
theorem startingStore_flows (ha : a.stage = .startingStore call) :
    h.Flows s r (.active a) (h.startingStore s r a call) := by
  have hup : a.stage.phase = .startUp := by rw [ha]; rfl
  rw [startingStore]
  split
  · trivial
  · split
    · exact flows_leave_startUp hup
    · split
      · exact flows_leave_startUp hup
      · exact ⟨[.storeStarted, .equipConnector s.config.name], ⟨rfl, rfl, rfl⟩,
          .prepares hup rfl (.inl rfl)⟩

/-- The connector starts, or fails to. -/
theorem startingConnector_flows (ha : a.stage = .startingConnector) :
    h.Flows s r (.active a) (h.startingConnector s r a) := by
  have hup : a.stage.phase = .startUp := by rw [ha]; rfl
  simp only [startingConnector]
  split
  · exact ⟨[.startConnector s.config.properties, .notice .connectorNotStarted], ⟨rfl, rfl, rfl⟩,
      .prepares hup rfl (.inr ⟨_, rfl⟩)⟩
  · exact ⟨[.startConnector s.config.properties], ⟨rfl, rfl, rfl⟩, .prepares hup rfl (.inl rfl)⟩

/-- A task is created, or cannot be. -/
theorem creatingTask_flows (ha : a.stage = .creatingTask) :
    h.Flows s r (.active a) (h.creatingTask s r a) := by
  have hup : a.stage.phase = .startUp := by rw [ha]; rfl
  simp only [creatingTask]
  split
  · exact ⟨[.askTaskConfigs 1], ⟨rfl, rfl, rfl⟩, .prepares hup rfl (.inr ⟨_, rfl⟩)⟩
  · split
    · exact ⟨[.askTaskConfigs 1, .createTask], ⟨rfl, rfl, rfl⟩, .prepares hup rfl (.inr ⟨_, rfl⟩)⟩
    · exact ⟨[.askTaskConfigs 1, .createTask, .equipTask], ⟨rfl, rfl, rfl⟩,
        .prepares hup rfl (.inl rfl)⟩

/-- A task starts, or fails to, or asks for committed offsets first. -/
theorem startingTask_flows (ha : a.stage = .startingTask properties) :
    h.Flows s r (.active a) (h.startingTask s r a properties) := by
  have hup : a.stage.phase = .startUp := by rw [ha]; rfl
  simp only [startingTask]
  split
  · exact ⟨[.startTask properties, .notice .taskNotStarted], ⟨rfl, rfl, rfl⟩,
      .prepares hup rfl (.inr ⟨_, rfl⟩)⟩
  · exact ⟨[.startTask properties] ++ [.loopBegun], ⟨rfl, rfl, rfl⟩, .begins hup rfl rfl⟩
  · split
    · exact ⟨[.startTask properties, .notice .taskNotStarted], ⟨rfl, rfl, rfl⟩,
        .prepares hup rfl (.inr ⟨_, rfl⟩)⟩
    · rename_i keys hkeys
      simp only [PlannedStore.callGet]
      split
      · exact flows_close_active [.startTask properties, .getFromStore keys]
          ⟨rfl, rfl, rfl⟩ rfl (by simp) (Nat.zero_le _) RunEnd.panicked_ne_returned
      · exact ⟨[.startTask properties, .getFromStore keys], ⟨rfl, rfl, rfl⟩,
          .prepares hup rfl (.inl rfl)⟩

/-- The committed offsets are waited for, and given to the task. -/
theorem resuming_flows (ha : a.stage = .resuming call request) :
    h.Flows s r (.active a) (h.resuming s r a call request) := by
  have hup : a.stage.phase = .startUp := by rw [ha]; rfl
  rw [resuming]
  split
  · trivial
  · split
    · exact ⟨[.notice .taskNotStarted], ⟨rfl, rfl, rfl⟩, .prepares hup rfl (.inr ⟨_, rfl⟩)⟩
    · dsimp only
      generalize s.offsetFormat.collect
        (h.store.store.get (request.map Prod.snd)) request = found
      have hnothing : h.Adds r [] h := ⟨rfl, rfl, rfl⟩
      refine ⟨_, ((hnothing.emitAll (found.notices.map .notice)).emit _).emit _, ?_⟩
      rw [emitAll_eq]
      refine .begins hup ?_ rfl
      simp [Event.isQuiet]

end In

/-! ### In the loop -/

section Loop

variable {a : Active}

/-- The top of the loop. -/
theorem looping_flows (ha : a.stage = .looping) : h.Flows s r (.active a) (h.looping r a) := by
  rw [looping]
  split
  · rename_i hi
    exact ⟨[.interruptCleared], ⟨rfl, rfl, rfl⟩, .heeds (.inl ha) hi rfl⟩
  · rename_i hi
    rw [Bool.not_eq_true] at hi
    split
    · rename_i hr
      exact ⟨[.poll], ⟨rfl, rfl, rfl⟩, .polls ha (by rw [Lifecycle.isHalting, hr, hi]; rfl) rfl⟩
    · exact ⟨[], ⟨rfl, rfl, rfl⟩, .stops ha hi rfl⟩

/-- A poll is waited for, and what it gave is looked at. -/
theorem polling_flows (ha : a.stage = .polling) : h.Flows s r (.active a) (h.polling r a) := by
  rw [polling]
  split
  · rename_i hi
    exact ⟨[.interruptCleared], ⟨rfl, rfl, rfl⟩, .heeds (.inr ha) hi rfl⟩
  · rename_i hi
    rw [Bool.not_eq_true] at hi
    split
    · trivial
    · rename_i result feed hfeed
      cases result with
      | nothing => exact ⟨[.polled .nothing], ⟨rfl, rfl, rfl⟩, .idles ha (.inl rfl) rfl⟩
      | batch records =>
        cases records with
        | nil => exact ⟨[.polled (.batch [])], ⟨rfl, rfl, rfl⟩, .idles ha (.inr rfl) rfl⟩
        | cons x xs =>
          exact ⟨[.polled (.batch (x :: xs))], ⟨rfl, rfl, rfl⟩, .receives ha rfl⟩
      | fails e =>
        cases e with
        | interrupted =>
          exact ⟨[.polled (.fails .interrupted), .interruptCleared], ⟨rfl, rfl, rfl⟩,
            .reports ha hi rfl⟩
        | noTaskConfig | offset | failed =>
          exact ⟨[.polled (.fails _)], ⟨rfl, rfl, rfl⟩, .fails ha (by simp) rfl⟩
      | panics =>
        exact flows_close_active [.polled .panics] ⟨rfl, rfl, rfl⟩ rfl (by simp)
          (Nat.zero_le _) RunEnd.panicked_ne_returned

/-- A record is delivered, or the last one was. -/
theorem delivering_flows {rest batch : List Record} (ha : a.stage = .delivering rest batch) :
    h.Flows s r (.active a) (h.delivering s r a rest batch) := by
  cases rest with
  | nil => exact ⟨[.delivered batch], ⟨rfl, rfl, rfl⟩, .delivers ha rfl⟩
  | cons x rest =>
    simp only [delivering, foldl_control_eq]
    generalize (s.consumer h.deliveries).asks = cs
    have hdeliver : h.Adds r [.deliver x]
        { { h with deliveries := h.deliveries + 1 }.emit r (.deliver x) with
          lifecycle := h.lifecycle.heedAll cs } := ⟨rfl, rfl, rfl⟩
    have hadds := hdeliver.emitAll (h.lifecycle.replies cs)
    rw [emitAll_eq] at hadds ⊢
    split
    · refine ⟨_, hadds.emit (.taken x), ?_⟩
      rw [List.append_assoc]
      exact .hands cs ha rfl
    · rename_i report hverdict
      exact ⟨_, hadds, .rejects cs ha hverdict rfl⟩
    · refine flows_close_active _ hadds (h.lifecycle.latch_heedAll cs) ?_ ?_
        RunEnd.panicked_ne_returned
      · rw [List.singleton_append, List.mem_cons, not_or]
        exact ⟨by simp, Lifecycle.not_mem_replies (by simp) _⟩
      · have hreplies := h.lifecycle.stopsGranted_replies cs
        rw [List.singleton_append, stopsGranted_cons]
        change _ + 0 ≤ _
        omega

end Loop

/-! ### Committing -/

section Commit

variable {a : Active} {final : Bool}

/-- A write that is started is nothing that happens. -/
theorem Adds.startWrite {es : List Event} (ha : h.Adds r es h₁) (write : Write) :
    h.Adds r es (h₁.startWrite write) :=
  ⟨ha.history, ha.runs, ha.now⟩

/-- The policy is consulted. -/
theorem consulting_flows (ha : a.stage = .consulting final) :
    h.Flows s r (.active a) (h.consulting s r a final) := by
  rw [consulting]
  generalize hp : (s.policy.probes a.records (h.now - a.lastCommit)).map
    (fun p => Event.probed p.1 p.2) = probes
  generalize s.policy.fires a.records (h.now - a.lastCommit) = fired
  have hprobes : probes.all Event.isQuiet = true := by
    rw [← hp]
    simp [Event.isQuiet]
  have hnothing : h.Adds r [] h := ⟨rfl, rfl, rfl⟩
  have hadds := (hnothing.emitAll probes).emit (.consulted a.records (h.now - a.lastCommit) fired)
  rw [emitAll_eq, List.nil_append] at hadds
  have idles : ∀ {es : List Event} {h' : Host} {a' : Active}, es.all Event.isQuiet = true →
      h.Adds r (probes ++ [.consulted a.records (h.now - a.lastCommit) fired] ++ es) h' →
      h'.lifecycle = h.lifecycle →
      (a'.stage = (afterCommit a final).stage ∨
        ∃ number deadline, a'.stage = .flushing number deadline final) →
      h.Flows s r (.active a) (.goesOn a' h') := by
    intro es h' a' hes hadds hl ha'
    refine ⟨_, hadds, ?_⟩
    rw [hl, List.append_assoc]
    exact .consults ha hprobes hes ha'
  rw [emitAll_eq]
  split
  · rw [flush]
    split
    · refine idles ?_ (hadds.emitAll _).countFailure ?_ (.inl rfl)
      · rfl
      · rw [emitAll_eq]
        rfl
    · exact idles rfl (by rwa [List.append_nil]) rfl (.inl rfl)
    · rename_i w hbegin
      rw [submit]
      split
      · exact idles rfl (by rwa [List.append_nil]) rfl (.inl rfl)
      · refine idles ?_ (hadds.emitAll _).countFailure ?_ (.inl rfl)
        · rfl
        · rw [emitAll_eq]
          rfl
      · rename_i flushId entries w' hsubmit
        have hsubmitted := (hadds.startWrite { run := r, flushId, entries }).emit
          (.submitted h.writes.length entries)
        exact idles rfl hsubmitted rfl (.inr ⟨_, _, rfl⟩)
  · exact idles rfl (by rwa [List.append_nil]) rfl (.inl rfl)

/-- A flush is waited for. -/
theorem flushing_flows {number deadline : Nat} (ha : a.stage = .flushing number deadline final) :
    h.Flows s r (.active a) (h.flushing r a number deadline final) := by
  have givesUp : ∀ why, h.Flows s r (.active a) (h.giveUp r a number final why) := fun why =>
    ⟨[.notice why, .givenUp number], ⟨rfl, rfl, rfl⟩, .flushes ha rfl rfl⟩
  rw [flushing]
  split
  · exact givesUp _
  · split
    · exact givesUp _
    · split
      · rw [commit]
        split
        · exact ⟨[.committed number], ⟨rfl, rfl, rfl⟩, .flushes ha rfl rfl⟩
        · exact ⟨[.notice .staleCompletion, .committed number], ⟨rfl, rfl, rfl⟩,
            .flushes ha rfl rfl⟩
      · exact givesUp _
      · split
        · exact givesUp _
        · trivial

end Commit

/-! ### On the way out -/

/-- A hook on the way out. -/
theorem flows_releases {a a' : Active} {result : RunResult} (e : Event)
    (ha : a.stage.phase = .out result) (he : e.isQuiet = true)
    (ha' : a'.stage.phase = .out result) :
    h.Flows s r (.active a) (.goesOn a' (h.emit r e)) :=
  ⟨[e], ⟨rfl, rfl, rfl⟩, .releases ha (by simp [he]) ha'⟩

/-- The last step of a run. -/
theorem leaving_flows {a : Active} {result : RunResult} (ha : a.stage = .leaving result) :
    h.Flows s r (.active a) (h.leave r result) := by
  refine flows_leave [] ⟨rfl, rfl, rfl⟩ ?_
  refine .endsQuietly (isQuiet_closing result) ?_
  rintro _ ⟨⟩
  exact .inl (by rw [ha]; rfl)

/-- A run that is dropped. -/
theorem dropRun_flows (s : Setup) (r : Nat) (h : Host) (st : RunStatus) :
    h.Flows s r st (h.dropRun r st) := by
  cases st with
  | requested => exact ⟨[], ⟨rfl, rfl, rfl⟩, .drops⟩
  | active a =>
    exact flows_close_active [] ⟨rfl, rfl, rfl⟩ rfl List.not_mem_nil (Nat.zero_le _)
      RunEnd.aborted_ne_returned
  | ended outcome => trivial

/-! ### Every step -/

/-- **Where the step of an accepted run leads.** -/
theorem step_flows (s : Setup) (r : Nat) (a : Active) (h : Host) :
    h.Flows s r (.active a) (h.step s r a) := by
  rw [step]
  split
  next ha => exact startingStore_flows ha
  next ha => exact startingConnector_flows ha
  next ha => exact creatingTask_flows ha
  next ha => exact startingTask_flows ha
  next ha => exact resuming_flows ha
  next ha => exact looping_flows ha
  next ha => exact polling_flows ha
  next ha => exact delivering_flows ha
  next ha => exact consulting_flows ha
  next ha => exact flushing_flows ha
  next ha => exact flows_releases .stopTask (by rw [ha]; rfl) rfl rfl
  next ha => exact flows_releases .stopConnector (by rw [ha]; rfl) rfl rfl
  next ha => exact flows_releases .stopStore (by rw [ha]; rfl) rfl rfl
  next ha => exact leaving_flows ha

/-- **Every step of a run flows so**, and then it is written down how far the run is. -/
theorem advance_flows (hadv : h.advance s r = some h') :
    ∃ st es st' h₁, h.status? r = some st ∧ h.Adds r es h₁ ∧ Flow s h st es st' h₁.lifecycle ∧
      h' = h₁.setStatus r st' := by
  obtain ⟨st, st', h₁, hst, ⟨es, hadds, hflow⟩, heq⟩ := advance_leads (s := s) (r := r)
    (Q := fun st st' h₁ => ∃ es, h.Adds r es h₁ ∧ Flow s h st es st' h₁.lifecycle)
    (fun _ => begin_flows s r h) (fun a _ => step_flows s r a h)
    (fun st _ => dropRun_flows s r h st) hadv
  exact ⟨st, es, st', h₁, hst, hadds, hflow, heq⟩

end Host

end ChangeCapture
