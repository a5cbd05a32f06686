import ChangeCapture.Proofs.Run.Bare

/-!
# Runs that are ready

A run that is ready takes a step. Whatever it does, the results of polls are left alone: what polls
gave so far and what they will give are the same results as before, in the same order. The writes
are left alone as long as the run has not come to its loop.

## Main definitions

* `Host.results`: what polls gave, and what they will give.
* `Host.Goes`: what a run does next.

## Main results

* `Host.progress_goes` — a run that is ready takes a step, and leaves alone what a step should.
-/

namespace ChangeCapture

namespace Host

variable {s : Setup} {h h' : Host} {a : Active} {st : RunStatus}

/-! ### What a step leaves alone -/

/-- What polls gave, and what they will give, in order. -/
def results (h : Host) : List Polled :=
  ((eventsOf 0 h.history).filterMap Event.polled?).reverse ++ h.feed

/-- **What is left alone**: how far the runs are, and the results of polls. -/
structure Keeps (h h' : Host) : Prop where
  runs : h'.runs = h.runs
  results : h'.results = h.results

/-- Events that tell of no poll are added. -/
theorem Keeps.emitAll (hh : h.Keeps h') {es : List Event} (hes : ∀ e ∈ es, e.polled? = none) :
    h.Keeps (h'.emitAll 0 es) := by
  have hnone : es.reverse.filterMap Event.polled? = [] :=
    List.filterMap_eq_nil_iff.mpr fun e he => hes e (List.mem_reverse.mp he)
  rw [emitAll_eq]
  refine ⟨hh.runs, ?_⟩
  rw [Host.results, eventsOf_append, ← List.map_reverse, eventsOf_map_self, List.filterMap_append,
    hnone]
  exact hh.results

/-- An event that tells of no poll is added. -/
theorem Keeps.emit (hh : h.Keeps h') {e : Event} (he : e.polled? = none) :
    h.Keeps (h'.emit 0 e) :=
  hh.emitAll (List.forall_mem_singleton.mpr he)

/-- The store is called. -/
theorem Keeps.withStore (hh : h.Keeps h') (store : PlannedStore) : h.Keeps { h' with store } :=
  ⟨hh.runs, hh.results⟩

/-- The lifecycle changes. -/
theorem Keeps.withLifecycle (hh : h.Keeps h') (lifecycle : Lifecycle) :
    h.Keeps { h' with lifecycle } :=
  ⟨hh.runs, hh.results⟩

/-- The metrics change. -/
theorem Keeps.measure (hh : h.Keeps h') (f : Metrics → Metrics) : h.Keeps (h'.measure f) :=
  ⟨hh.runs, hh.results⟩

/-- The writes change. -/
theorem Keeps.withWrites (hh : h.Keeps h') (writes : List Write) (workers : List Worker) :
    h.Keeps { h' with writes, workers } :=
  ⟨hh.runs, hh.results⟩

/-- What a step does: it leaves the results of polls alone, and the writes as long as the run has
not come to its loop. -/
structure Proceeds (h : Host) (st st' : RunStatus) (h' : Host) : Prop where
  runs : h'.runs = h.runs
  results : h'.results = h.results
  starting : st'.isStarting = true → st.isStarting = true ∧ h'.writes = h.writes

/-- **What a run does next**: it waits only while it is not ready. -/
def Goes (h : Host) (st : RunStatus) : Progress → Prop
  | .blocked => h.isRunReady { status := st } = false
  | .goesOn a h' => h.Proceeds st (.active a) h'
  | .ends outcome h' => h.Proceeds st (.ended outcome) h'

/-- A run waits. -/
theorem goes_blocked (hready : h.isStageReady a.stage = false) : h.Goes (.active a) .blocked :=
  hready

namespace Keeps

/-- A run ends. -/
theorem ends (hh : h.Keeps h') (outcome : RunEnd) : h.Goes st (.ends outcome h') :=
  ⟨hh.runs, hh.results, nofun⟩

/-- A run that has not come to its loop goes on. -/
theorem starts (hh : h.Keeps h') (hst : st.isStarting = true) (hw : h'.writes = h.writes) :
    h.Goes st (.goesOn a h') :=
  ⟨hh.runs, hh.results, fun _ => ⟨hst, hw⟩⟩

/-- A run goes on in its loop, or on its way out. -/
theorem goesOn (hh : h.Keeps h') (ha : a.stage.isStarting = false) :
    h.Goes st (.goesOn a h') :=
  ⟨hh.runs, hh.results, fun hst => absurd (ha.symm.trans hst) Bool.false_ne_true⟩

/-- A run gives its place free. -/
theorem close (hh : h.Keeps h') (outcome : RunEnd) : h.Goes st (h'.close 0 outcome) :=
  ((hh.withLifecycle _).emit rfl).ends outcome

/-- A run returns. -/
theorem leave (hh : h.Keeps h') (result : RunResult) : h.Goes st (h'.leave 0 result) := by
  cases result with
  | error e => exact (hh.emit rfl).close _
  | ok exit => exact hh.close _

end Keeps

/-! ### On the way in -/

/-- The first step of a run is taken at once. -/
theorem begin_goes : h.Goes .requested (h.begin s 0) := by
  have hnothing : h.Keeps h := ⟨rfl, rfl⟩
  rw [begin]
  split
  · exact hnothing.ends _
  · rename_i l _
    have haccepted := (hnothing.withLifecycle l).emit (e := .accepted) rfl
    dsimp only
    split
    · exact haccepted.leave _
    · split
      · exact haccepted.leave _
      · have hcalled := (haccepted.emit (e := .createConnector) rfl).emit (e := .startStore) rfl
        split
        · exact (hcalled.withStore _).close _
        · exact (hcalled.withStore _).starts rfl rfl

section In

variable {call : PendingCall} {properties : Properties} {request : List (Partition × Bytes)}

/-- The store's start is waited for. -/
theorem startingStore_goes (ha : a.stage = .startingStore call) :
    h.Goes (.active a) (h.startingStore s 0 a call) := by
  have hnothing : h.Keeps h := ⟨rfl, rfl⟩
  have hstarting := RunStatus.isStarting_of_stage ha rfl
  rw [startingStore]
  split
  · rename_i hback
    refine goes_blocked ?_
    rw [ha]
    simpa [isStageReady] using hback
  · split
    · exact hnothing.leave _
    · split
      · exact hnothing.leave _
      · exact (((hnothing.withStore _).emit rfl).emit rfl).starts hstarting rfl

/-- The connector starts, or fails to. -/
theorem startingConnector_goes (ha : a.stage = .startingConnector) :
    h.Goes (.active a) (h.startingConnector s 0 a) := by
  have hcalled : h.Keeps { h with startCalls := h.startCalls + 1 } := ⟨rfl, rfl⟩
  have hstarting := RunStatus.isStarting_of_stage ha rfl
  rw [startingConnector]
  split
  · exact ((hcalled.emit rfl).emit rfl).goesOn rfl
  · exact (hcalled.emit rfl).starts hstarting rfl

/-- A task is created, or cannot be. -/
theorem creatingTask_goes (ha : a.stage = .creatingTask) :
    h.Goes (.active a) (h.creatingTask s 0 a) := by
  have hnothing : h.Keeps h := ⟨rfl, rfl⟩
  have hstarting := RunStatus.isStarting_of_stage ha rfl
  rw [creatingTask]
  have hasked := hnothing.emit (e := .askTaskConfigs 1) rfl
  split
  · exact hasked.goesOn rfl
  · have hcalled : h.Keeps { h.emit 0 (.askTaskConfigs 1) with createCalls := h.createCalls + 1 } :=
      ⟨hasked.runs, hasked.results⟩
    dsimp only
    split
    · exact (hcalled.emit rfl).goesOn rfl
    · exact ((hcalled.emit rfl).emit rfl).starts hstarting rfl

/-- A task starts, or fails to, or asks for committed offsets first. -/
theorem startingTask_goes (ha : a.stage = .startingTask properties) :
    h.Goes (.active a) (h.startingTask s 0 a properties) := by
  have hcalled : h.Keeps { h with taskStartCalls := h.taskStartCalls + 1 } := ⟨rfl, rfl⟩
  have hstarting := RunStatus.isStarting_of_stage ha rfl
  have hstarted := hcalled.emit (e := .startTask properties) rfl
  rw [startingTask]
  split
  · exact (hstarted.emit rfl).goesOn rfl
  · exact (hstarted.emit rfl).goesOn rfl
  · split
    · exact (hstarted.emit rfl).goesOn rfl
    · dsimp only
      split
      · exact ((hstarted.withStore _).emit rfl).close _
      · exact ((hstarted.withStore _).emit rfl).starts hstarting rfl

/-- The committed offsets are waited for, and given to the task. -/
theorem resuming_goes (ha : a.stage = .resuming call request) :
    h.Goes (.active a) (h.resuming s 0 a call request) := by
  have hnothing : h.Keeps h := ⟨rfl, rfl⟩
  rw [resuming]
  split
  · rename_i hback
    refine goes_blocked ?_
    rw [ha]
    simpa [isStageReady] using hback
  · split
    · exact (hnothing.emit rfl).goesOn rfl
    · exact (((hnothing.emitAll (by simp [Event.polled?])).emit rfl).emit rfl).goesOn rfl

end In

/-! ### In the loop -/

/-- An interrupt is taken note of. -/
theorem Keeps.exitInterrupted (hh : h.Keeps h') : h.Goes st (h'.exitInterrupted 0 a) :=
  ((hh.withLifecycle _).emit rfl).goesOn rfl

/-- The top of the loop. -/
theorem looping_goes : h.Goes st (h.looping 0 a) := by
  have hnothing : h.Keeps h := ⟨rfl, rfl⟩
  rw [looping]
  split
  · exact hnothing.exitInterrupted
  · split
    · exact (hnothing.emit rfl).goesOn rfl
    · exact hnothing.goesOn rfl

/-- A poll is waited for, and what it gave is looked at. -/
theorem polling_goes (ha : a.stage = .polling) : h.Goes (.active a) (h.polling 0 a) := by
  have hnothing : h.Keeps h := ⟨rfl, rfl⟩
  rw [polling]
  split
  · exact hnothing.exitInterrupted
  · rename_i hinterrupted
    split
    · rename_i hfeed
      refine goes_blocked ?_
      rw [ha]
      simpa [isStageReady, hfeed] using hinterrupted
    · rename_i result feed hfeed
      have hpolled : h.Keeps ({ h with feed }.emit 0 (.polled result)) := by
        refine ⟨rfl, ?_⟩
        simp [results, emit, eventsOf_cons_self, Event.polled?, hfeed]
      rw [receive.eq_def]
      split
      · exact hpolled.goesOn rfl
      · exact hpolled.goesOn rfl
      · exact hpolled.goesOn rfl
      · exact hpolled.exitInterrupted
      · exact hpolled.goesOn rfl
      · exact hpolled.close _

/-- What a consumer asks for tells of no poll. -/
theorem polled?_replies (cs : List Control) (l : Lifecycle) :
    ∀ e ∈ l.replies cs, e.polled? = none := by
  induction cs generalizing l with
  | nil => nofun
  | cons c cs ih => exact List.forall_mem_cons.mpr ⟨rfl, ih _⟩

/-- A record is delivered, or the last one was. -/
theorem delivering_goes (rest batch : List Record) : h.Goes st (h.delivering s 0 a rest batch) := by
  cases rest with
  | nil =>
    have hmeasured : ∀ f, h.Keeps (h.measure f) := fun _ => ⟨rfl, rfl⟩
    exact ((hmeasured _).emit rfl).goesOn rfl
  | cons x rest =>
    simp only [delivering, foldl_control_eq]
    have hcalled : h.Keeps { h with deliveries := h.deliveries + 1 } := ⟨rfl, rfl⟩
    have hasked := ((hcalled.emit (e := .deliver x) rfl).withLifecycle
      (h.lifecycle.heedAll (s.consumer h.deliveries).asks)).emitAll
        (polled?_replies (s.consumer h.deliveries).asks h.lifecycle)
    split
    · exact (hasked.emit rfl).goesOn rfl
    · exact hasked.goesOn rfl
    · exact hasked.close _

/-! ### Committing -/

/-- A run is in its loop or on its way out after a commit. -/
theorem isStarting_afterCommit (a : Active) (final : Bool) :
    (afterCommit a final).stage.isStarting = false := by
  cases final <;> rfl

/-- The policy is consulted. -/
theorem consulting_goes (final : Bool) : h.Goes st (h.consulting s 0 a final) := by
  have hnothing : h.Keeps h := ⟨rfl, rfl⟩
  have hprobed : h.Keeps (h.emitAll 0 ((s.policy.probes a.records (h.now - a.lastCommit)).map
      fun p => Event.probed p.1 p.2)) :=
    hnothing.emitAll fun e he => by
      obtain ⟨p, -, rfl⟩ := List.mem_map.mp he
      rfl
  have hasked := hprobed.emit (e := .consulted a.records (h.now - a.lastCommit)
    (s.policy.fires a.records (h.now - a.lastCommit))) rfl
  rw [consulting]
  split
  · rw [flush]
    split
    · exact (((hasked.emit rfl).emit rfl).measure _).goesOn (isStarting_afterCommit _ _)
    · exact hasked.goesOn (isStarting_afterCommit _ _)
    · rw [submit]
      split
      · exact hasked.goesOn (isStarting_afterCommit _ _)
      · exact ((((hasked.emit rfl).emit rfl).emit rfl).measure _).goesOn
          (isStarting_afterCommit _ _)
      · exact ((hasked.withWrites _ _).emit rfl).goesOn rfl
  · exact hasked.goesOn (isStarting_afterCommit _ _)

/-- A flush is waited for. -/
theorem flushing_goes {number deadline : Nat} {final : Bool}
    (ha : a.stage = .flushing number deadline final) :
    h.Goes (.active a) (h.flushing 0 a number deadline final) := by
  have hnothing : h.Keeps h := ⟨rfl, rfl⟩
  have givesUp : ∀ why, h.Goes (.active a) (h.giveUp 0 a number final why) := by
    intro why
    have hcancelled := hnothing.withWrites (h.writes.modify number Write.cancel) h.workers
    exact ((((hcancelled.emit rfl).emit rfl).measure _)).goesOn (isStarting_afterCommit _ _)
  rw [flushing]
  split
  · exact givesUp _
  · rename_i hinterrupted
    split
    · exact givesUp _
    · rename_i write hwrite
      split
      · rw [commit]
        split
        · exact ((hnothing.measure _).emit rfl).goesOn (isStarting_afterCommit _ _)
        · exact (((hnothing.measure _).emit rfl).emit rfl).goesOn (isStarting_afterCommit _ _)
      · exact givesUp _
      · rename_i hresult
        split
        · exact givesUp _
        · rename_i hdeadline
          refine goes_blocked ?_
          rw [ha]
          simpa [isStageReady, hwrite, hresult] using
            ⟨Bool.eq_false_iff.mpr hinterrupted, Nat.lt_of_not_le hdeadline⟩

/-! ### Every step -/

/-- **A run that is ready takes a step**, and what a step leaves alone is left alone. -/
theorem progress_goes (s : Setup) (st : RunStatus) (h : Host) : h.Goes st (h.progress s st) := by
  have hnothing : h.Keeps h := ⟨rfl, rfl⟩
  cases st with
  | requested => exact begin_goes
  | ended outcome => rfl
  | active a =>
    rw [progress, step]
    split
    next ha => exact startingStore_goes ha
    next ha => exact startingConnector_goes ha
    next ha => exact creatingTask_goes ha
    next ha => exact startingTask_goes ha
    next ha => exact resuming_goes ha
    next => exact looping_goes
    next ha => exact polling_goes ha
    next => exact delivering_goes _ _
    next => exact consulting_goes _
    next ha => exact flushing_goes ha
    next => exact (hnothing.emit rfl).goesOn rfl
    next => exact (hnothing.emit rfl).goesOn rfl
    next => exact (hnothing.emit rfl).goesOn rfl
    next => exact hnothing.leave _

end Host

end ChangeCapture
