import ChangeCapture.Proofs.Run.Settling
import ChangeCapture.Proofs.Run.Tally
import Mathlib.Algebra.BigOperators.Group.Finset.Piecewise

/-!
# The metrics as the history tells them

The metrics of a host outlive its runs. Three events change them: a batch that is delivered, a flush
that is confirmed and one that is given up. What they show is therefore told by the history and by
what they showed at first, whatever else runs do and in whatever way they end.

The counters only grow, around the end of their 64 bits, and each run adds its part.

## Main definitions

* `Grew`: the growth of a counter.
* `Event.meter`, `metered`: the metrics, read off the history.
* `Event.adds`, `addedTo`, `Host.total`: what events, a run and all runs add to a counter.

## Main results

* `Host.Reaches.metered` — the metrics are what the history tells.
* `Host.Reaches.counters` — each counter has grown by what the runs add to it.
-/

namespace ChangeCapture

/-! ### Counters -/

/-- **The growth of a counter** by a number: around the end of its 64 bits, and by exactly that
number as long as the counter has not come there. -/
structure Grew (before n after : Nat) : Prop where
  around : Metrics.wrap after = Metrics.wrap (before + n)
  exact : before + n < Word.size → after = before + n

namespace Grew

variable {before n after : Nat}

/-- A counter that nothing is added to. -/
theorem zero (before : Nat) : Grew before 0 before :=
  ⟨rfl, fun _ => rfl⟩

/-- More is added to a counter. -/
theorem add (h : Grew before n after) (k : Nat) :
    Grew before (n + k) (Metrics.wrap (after + k)) where
  around := by
    have hold := h.around
    simp only [Metrics.wrap] at hold ⊢
    rw [Nat.mod_mod, Nat.add_mod, hold, ← Nat.add_mod, Nat.add_assoc]
  exact hlt := by
    rw [h.exact (by omega), Metrics.wrap, Nat.mod_eq_of_lt (by omega), Nat.add_assoc]

end Grew

/-- The value of a counter. -/
def Metrics.get (m : Metrics) : Counter → Nat
  | .recordsDelivered => m.recordsDelivered
  | .batchesPolled => m.batchesPolled
  | .flushesCommitted => m.flushesCommitted
  | .flushesFailed => m.flushesFailed

/-! ### Events -/

/-- **What an event of a run does to the metrics**, given the events of the run before it, the
newest first. -/
def Event.meter (older : List Event) : Event → Metrics → Metrics
  | .delivered batch, m =>
    ((m.add .batchesPolled 1).add .recordsDelivered batch.length).setPending
      (recordsSince older + batch.length : Nat)
  | .committed _, m => (m.add .flushesCommitted 1).setPending 0
  | .givenUp _, m => m.add .flushesFailed 1
  | _, m => m

/-- **The metrics that a history tells**, from those before it. -/
def metered (m₀ : Metrics) : List HistoryEntry → Metrics
  | [] => m₀
  | x :: earlier => x.event.meter (eventsOf x.run earlier) (metered m₀ earlier)

/-- Whether an event leaves the metrics as they are. -/
def Event.isUnmetered : Event → Bool
  | .delivered _ | .committed _ | .givenUp _ => false
  | _ => true

/-- **What an event adds to a counter.** -/
def Event.adds : Counter → Event → Nat
  | .recordsDelivered, .delivered batch => batch.length
  | .batchesPolled, .delivered _ => 1
  | .flushesCommitted, .committed _ => 1
  | .flushesFailed, .givenUp _ => 1
  | _, _ => 0

/-- What the events of a run add to a counter. -/
def addedTo (c : Counter) : List Event → Nat
  | [] => 0
  | e :: es => e.adds c + addedTo c es

/-- An unmetered event leaves the metrics as they are. -/
theorem Event.meter_unmetered {e : Event} (h : e.isUnmetered = true) (older : List Event)
    (m : Metrics) : e.meter older m = m := by
  cases e <;> first | rfl | cases h

/-- Uncounted events leave the metrics as they are. -/
theorem Event.isUnmetered_uncounted {es : List Event} (h : es.all Event.isUncounted = true) :
    es.all Event.isUnmetered = true := by
  refine List.all_eq_true.mpr fun e he => ?_
  have huncounted := List.all_eq_true.mp h e he
  cases e <;> first | rfl | cases huncounted

/-- The turns of writes leave the metrics as they are. -/
theorem Event.isUnmetered_write {n : Nat} {entries : Entries} {es : List Event}
    (h : ∀ e ∈ es, e.IsOfWrite n entries) : es.all Event.isUnmetered = true := by
  refine List.all_eq_true.mpr fun e he => ?_
  obtain rfl | ⟨_, rfl⟩ | rfl := h e he <;> rfl

/-- Unmetered entries may be added to a history. -/
theorem metered_append {m₀ : Metrics} {newer older : List HistoryEntry}
    (h : ∀ x ∈ newer, x.event.isUnmetered = true) :
    metered m₀ (newer ++ older) = metered m₀ older := by
  induction newer with
  | nil => rfl
  | cons x newer ih =>
    rw [List.cons_append, metered, Event.meter_unmetered (h x List.mem_cons_self)]
    exact ih fun y hy => h y (List.mem_cons_of_mem _ hy)

/-- The value of a counter after an event. -/
theorem Event.get_meter (c : Counter) (e : Event) (older : List Event) (m : Metrics) :
    (e.meter older m).get c = m.get c ∧ e.adds c = 0 ∨
      (e.meter older m).get c = Metrics.wrap (m.get c + e.adds c) := by
  cases e <;> cases c <;> first | exact .inl ⟨rfl, rfl⟩ | exact .inr rfl

/-- Unmetered events add nothing to a counter. -/
theorem addedTo_unmetered {c : Counter} {es : List Event} (hes : es.all Event.isUnmetered = true) :
    addedTo c es = 0 := by
  induction es with
  | nil => rfl
  | cons e es ih =>
    rw [List.all_cons, Bool.and_eq_true] at hes
    have hzero : e.adds c = 0 := by
      cases e <;> first | (cases c <;> rfl) | cases hes.1
    rw [addedTo, hzero, ih hes.2]

/-- A counter has grown by what the entries of a history add to it. -/
theorem grew_metered (c : Counter) (m₀ : Metrics) (history : List HistoryEntry) :
    Grew (m₀.get c) (addedTo c (history.map HistoryEntry.event))
      ((metered m₀ history).get c) := by
  induction history with
  | nil => exact Grew.zero _
  | cons x earlier ih =>
    rw [List.map_cons, addedTo, Nat.add_comm, metered]
    obtain ⟨heq, hzero⟩ | heq := x.event.get_meter c (eventsOf x.run earlier) (metered m₀ earlier)
    · rwa [heq, hzero]
    · rw [heq]
      exact ih.add _

/-- The events of a step, after those before it. -/
theorem addedTo_reverse_append (c : Counter) (es older : List Event) :
    addedTo c (es.reverse ++ older) = addedTo c es + addedTo c older := by
  induction es generalizing older with
  | nil => exact (Nat.zero_add _).symm
  | cons e es ih =>
    rw [List.reverse_cons, List.append_assoc, List.singleton_append, ih, addedTo, addedTo]
    omega

/-- What the events of a run add to a counter, after one more entry of the history. -/
theorem addedTo_eventsOf_cons (c : Counter) (r : Nat) (x : HistoryEntry)
    (earlier : List HistoryEntry) : addedTo c (eventsOf r (x :: earlier)) =
      (if x.run = r then x.event.adds c else 0) + addedTo c (eventsOf r earlier) := by
  by_cases hr : x.run = r
  · simp [addedTo, eventsOf, hr]
  · simp [eventsOf, hr]

/-- The runs together add to a counter what the entries of the history do. -/
theorem sum_addedTo (c : Counter) {n : Nat} {history : List HistoryEntry}
    (h : ∀ x ∈ history, x.run < n) :
    ∑ r ∈ Finset.range n, addedTo c (eventsOf r history) =
      addedTo c (history.map HistoryEntry.event) := by
  induction history with
  | nil => exact Finset.sum_const_zero
  | cons x earlier ih =>
    simp only [addedTo_eventsOf_cons, Finset.sum_add_distrib, Finset.sum_ite_eq, Finset.mem_range]
    rw [if_pos (h x List.mem_cons_self), ih fun y hy => h y (List.mem_cons_of_mem _ hy),
      List.map_cons, addedTo]

namespace Host

/-! ### One step -/

/-- **The metrics are what the history tells.** -/
def Metered (m₀ : Option Metrics) (h : Host) : Prop :=
  h.metrics = m₀.map fun m => metered m h.history

variable {s : Setup} {m₀ : Option Metrics} {r : Nat} {h h' h₀ : Host} {a : Active}

/-- A write that takes a turn leaves the metrics as they are. -/
theorem metrics_turnWrite (n : Nat) (h : Host) : (h.turnWrite n).metrics = h.metrics := by
  rw [turnWrite]
  split
  · rfl
  · rw [emitAll_eq]

namespace Metered

/-- Events are added that leave the metrics as they are. -/
theorem adds (hm : h.Metered m₀) {es : List Event} (hadds : h.Adds r es h')
    (hmetrics : h'.metrics = h.metrics) (hes : es.all Event.isUnmetered = true) :
    h'.Metered m₀ := by
  rw [Metered, hmetrics, hm, hadds.history]
  refine congrArg (Option.map · m₀) (funext fun m => (metered_append fun x hx => ?_).symm)
  obtain ⟨e, he, rfl⟩ := List.mem_map.mp (List.mem_reverse.mp hx)
  exact List.all_eq_true.mp hes e he

/-- Events are added that leave the metrics as they are. -/
theorem emitAll (hm : h.Metered m₀) {es : List Event} (hes : es.all Event.isUnmetered = true) :
    (h.emitAll r es).Metered m₀ := by
  have hnothing : h.Adds r [] h := ⟨rfl, rfl, rfl⟩
  refine hm.adds (hnothing.emitAll es) ?_ hes
  rw [emitAll_eq]

/-- An event is added that leaves the metrics as they are. -/
theorem emit (hm : h.Metered m₀) {e : Event} (he : e.isUnmetered = true) :
    (h.emit r e).Metered m₀ := by
  have hes : [e].all Event.isUnmetered = true := by rw [List.all_cons, he, List.all_nil]; rfl
  exact hm.emitAll hes

/-- The metrics change as an event tells. -/
theorem measure (hm : h.Metered m₀) (e : Event) :
    ((h.measure (e.meter (eventsOf r h.history))).emit r e).Metered m₀ := by
  rw [Metered] at hm ⊢
  change h.metrics.map _ = _
  rw [hm, Option.map_map]
  rfl

/-- A run gives its place free. -/
theorem close (hm : h.Metered m₀) (outcome : RunEnd) :
    (h.close r outcome).Leads fun _ h' => h'.Metered m₀ := by
  have hfinish : { h with lifecycle := h.lifecycle.finish }.Metered m₀ := hm
  exact hfinish.emit rfl

/-- A run returns. -/
theorem leave (hm : h.Metered m₀) (result : RunResult) :
    (h.leave r result).Leads fun _ h' => h'.Metered m₀ := by
  cases result with
  | error e => exact (hm.emit rfl).close _
  | ok exit => exact hm.close _

/-! ### On the way in -/

/-- The first step of a run. -/
theorem begin (hm : h.Metered m₀) (s : Setup) (r : Nat) :
    (h.begin s r).Leads fun _ h' => h'.Metered m₀ := by
  rw [Host.begin]
  split
  · exact hm
  · rename_i l _
    have haccepted : ({ h with lifecycle := l }.emit r .accepted).Metered m₀ :=
      emit (h := { h with lifecycle := l }) hm rfl
    dsimp only
    split
    · exact haccepted.leave _
    · split
      · exact haccepted.leave _
      · have hcalled := (haccepted.emit (r := r) (e := .createConnector) rfl).emit (r := r)
          (e := .startStore) rfl
        split
        · refine close ?_ _
          exact hcalled
        · exact hcalled

section In

variable {call : PendingCall} {properties : Properties} {request : List (Partition × Bytes)}

/-- The store's start is waited for. -/
theorem startingStore (hm : h.Metered m₀) :
    (h.startingStore s r a call).Leads fun _ h' => h'.Metered m₀ := by
  rw [Host.startingStore]
  split
  · trivial
  · split
    · exact hm.leave _
    · split
      · exact hm.leave _
      · rename_i store _
        have hstarted : { h with store }.Metered m₀ := hm
        exact (hstarted.emit rfl).emit rfl

/-- The connector starts, or fails to. -/
theorem startingConnector (hm : h.Metered m₀) :
    (h.startingConnector s r a).Leads fun _ h' => h'.Metered m₀ := by
  have hcalled : ({ h with startCalls := h.startCalls + 1 }.emit r
      (.startConnector s.config.properties)).Metered m₀ :=
    emit (h := { h with startCalls := h.startCalls + 1 }) hm rfl
  rw [Host.startingConnector]
  split
  · exact hcalled.emit rfl
  · exact hcalled

/-- A task is created, or cannot be. -/
theorem creatingTask (hm : h.Metered m₀) :
    (h.creatingTask s r a).Leads fun _ h' => h'.Metered m₀ := by
  have hasked : (h.emit r (.askTaskConfigs 1)).Metered m₀ := hm.emit rfl
  have hcalled : ({ h.emit r (.askTaskConfigs 1) with
      createCalls := h.createCalls + 1 }.emit r .createTask).Metered m₀ :=
    emit (h := { h.emit r (.askTaskConfigs 1) with createCalls := h.createCalls + 1 }) hasked rfl
  rw [Host.creatingTask]
  split
  · exact hasked
  · dsimp only
    split
    · exact hcalled
    · exact hcalled.emit rfl

/-- A task starts, or fails to, or asks for committed offsets first. -/
theorem startingTask (hm : h.Metered m₀) :
    (h.startingTask s r a properties).Leads fun _ h' => h'.Metered m₀ := by
  have hstarted : ({ h with taskStartCalls := h.taskStartCalls + 1 }.emit r
      (.startTask properties)).Metered m₀ :=
    emit (h := { h with taskStartCalls := h.taskStartCalls + 1 }) hm rfl
  rw [Host.startingTask]
  split
  · exact hstarted.emit rfl
  · exact hstarted.emit rfl
  · split
    · exact hstarted.emit rfl
    · rename_i keys _
      have hread : ∀ {store : PlannedStore}, ({ { h with
          taskStartCalls := h.taskStartCalls + 1 }.emit r (.startTask properties) with
          store }.emit r (.getFromStore keys)).Metered m₀ := fun {store} =>
        emit (h := { { h with taskStartCalls := h.taskStartCalls + 1 }.emit r
          (.startTask properties) with store }) hstarted rfl
      dsimp only
      split
      · exact hread.close _
      · exact hread

/-- The committed offsets are waited for, and given to the task. -/
theorem resuming (hm : h.Metered m₀) :
    (h.resuming s r a call request).Leads fun _ h' => h'.Metered m₀ := by
  rw [Host.resuming]
  split
  · trivial
  · split
    · exact hm.emit rfl
    · refine ((hm.emitAll ?_).emit rfl).emit rfl
      simp [Event.isUnmetered]

end In

/-! ### In the loop -/

/-- The top of the loop. -/
theorem looping (hm : h.Metered m₀) : (h.looping r a).Leads fun _ h' => h'.Metered m₀ := by
  have hcleared : { h with lifecycle := h.lifecycle.clearInterrupt }.Metered m₀ := hm
  rw [Host.looping]
  split
  · exact hcleared.emit rfl
  · split
    · exact hm.emit rfl
    · exact hm

/-- A poll is waited for, and what it gave is looked at. -/
theorem polling (hm : h.Metered m₀) : (h.polling r a).Leads fun _ h' => h'.Metered m₀ := by
  have exits : ∀ {h : Host}, h.Metered m₀ →
      ({ h with lifecycle := h.lifecycle.clearInterrupt }.emit r .interruptCleared).Metered m₀ :=
    fun {h} hm => emit (h := { h with lifecycle := h.lifecycle.clearInterrupt }) hm rfl
  rw [Host.polling]
  split
  · exact exits hm
  · split
    · trivial
    · rename_i result feed _
      have hpolled : ({ h with feed }.emit r (.polled result)).Metered m₀ :=
        emit (h := { h with feed }) hm rfl
      rw [receive.eq_def]
      split
      · exact hpolled
      · exact hpolled
      · exact hpolled
      · exact exits hpolled
      · exact hpolled
      · exact hpolled.close _

/-- A record is delivered, or the last one was. The gauge shows the records that the run counts. -/
theorem delivering (hm : h.Metered m₀) {rest batch : List Record}
    (hrecords : a.records = recordsSince (eventsOf r h.history)) :
    (h.delivering s r a rest batch).Leads fun _ h' => h'.Metered m₀ := by
  cases rest with
  | nil =>
    rw [Host.delivering, finishBatch, hrecords]
    exact hm.measure (.delivered batch)
  | cons x rest =>
    simp only [Host.delivering, foldl_control_eq]
    generalize (s.consumer h.deliveries).asks = cs
    have hdeliver : ({ h with deliveries := h.deliveries + 1 }.emit r (.deliver x)).Metered m₀ :=
      emit (h := { h with deliveries := h.deliveries + 1 }) hm rfl
    have hheeded := emitAll (r := r) (h := { { h with deliveries := h.deliveries + 1 }.emit r
      (.deliver x) with lifecycle := h.lifecycle.heedAll cs }) hdeliver
      (Event.isUnmetered_uncounted (isUncounted_replies cs h.lifecycle))
    split
    · exact hheeded.emit rfl
    · exact hheeded
    · exact hheeded.close _

/-! ### Committing -/

/-- The policy is consulted. A run whose books are settled submits what it owes. -/
theorem consulting (hm : h.Metered m₀) {final : Bool} (hformat : a.writer.format = s.offsetFormat)
    (hsnapshot : a.writer.snapshot = none) :
    (h.consulting s r a final).Leads fun _ h' => h'.Metered m₀ := by
  have hprobed : ((s.policy.probes a.records (h.now - a.lastCommit)).map fun p =>
      Event.probed p.1 p.2).all Event.isUnmetered = true := by
    simp [Event.isUnmetered]
  have hasked := (hm.emitAll (r := r) hprobed).emit (r := r) (e := .consulted a.records
    (h.now - a.lastCommit) (s.policy.fires a.records (h.now - a.lastCommit))) rfl
  rw [Host.consulting]
  split
  · rw [flush]
    split
    · rename_i e hbegin
      exact absurd hbegin (beginFlush_ne_error hsnapshot e)
    · exact hasked
    · rename_i w hbegin
      rw [submit, Ledger.submit_of_beginFlush hformat hbegin]
      refine Metered.emit ?_ rfl
      exact hasked
  · exact hasked

/-- A flush is waited for. -/
theorem flushing (hm : h.Metered m₀) {number deadline : Nat} {final : Bool} :
    (h.flushing r a number deadline final).Leads fun _ h' => h'.Metered m₀ := by
  have givesUp : ∀ why, (h.giveUp r a number final why).Leads fun _ h' => h'.Metered m₀ := by
    intro why
    have hcancelled : { h with writes := h.writes.modify number Write.cancel }.Metered m₀ := hm
    exact (hcancelled.emit (e := .notice why) rfl).measure (.givenUp number)
  rw [Host.flushing]
  split
  · exact givesUp _
  · split
    · exact givesUp _
    · split
      · rw [commit]
        split
        · exact hm.measure (.committed number)
        · exact (hm.emit (e := .notice .staleCompletion) rfl).measure (.committed number)
      · exact givesUp _
      · split
        · exact givesUp _
        · trivial

/-! ### Every move -/

/-- The step of an accepted run. -/
theorem step (hm : h.Metered m₀) (hloop : a.stage.phase = .loop →
      a.records = recordsSince (eventsOf r h.history))
    (hl : Ledger s h.writes a (eventsOf r h.history)) :
    (h.step s r a).Leads fun _ h' => h'.Metered m₀ := by
  rw [Host.step]
  split
  next => exact hm.startingStore
  next => exact hm.startingConnector
  next => exact hm.creatingTask
  next => exact hm.startingTask
  next => exact hm.resuming
  next => exact hm.looping
  next => exact hm.polling
  next ha => exact hm.delivering (hloop (by rw [ha]; rfl))
  next ha => exact hm.consulting hl.format (hl.settled (by rw [ha]; rfl)).1
  next => exact hm.flushing
  next => exact hm.emit rfl
  next => exact hm.emit rfl
  next => exact hm.emit rfl
  next => exact hm.leave _

/-- A run that is dropped. -/
theorem dropRun (hm : h.Metered m₀) (st : RunStatus) :
    (h.dropRun r st).Leads fun _ h' => h'.Metered m₀ := by
  cases st with
  | requested => exact hm
  | active a => exact hm.close _
  | ended outcome => trivial

/-- **A move keeps the metrics what the history tells**, of runs that count what it tells and whose
books are in order. -/
theorem move (hm : h.Metered m₀) (ht : h.Tallied s) (hb : h.Booked s) (hmove : Move s h h') :
    h'.Metered m₀ := by
  cases hmove with
  | request | provide | ask | abort | startWaiter | look | pass => exact hm
  | write n =>
    obtain heq | ⟨write, status, es, hw⟩ := turnWrite_cases n h
    · rwa [heq]
    · exact hm.adds hw.adds (metrics_turnWrite n h) (Event.isUnmetered_write hw.events)
  | run r hadv =>
    obtain ⟨st, st', h₁, -, hmetered, rfl⟩ := advance_leads (s := s) (r := r)
      (Q := fun _ _ h₁ => h₁.Metered m₀) (fun _ => hm.begin s r)
      (fun a ha => hm.step (fun hp => (ht.active r a ha (by rw [hp]; rfl)).records)
        (hb.ledger r a ha))
      (fun st _ => hm.dropRun st) hadv
    exact hmetered

end Metered

/-- **The metrics are what the history tells.** -/
theorem Reaches.metered (hf : h₀.Fresh) (hr : Reaches s h₀ h) : h.Metered h₀.metrics := by
  induction hr with
  | refl =>
    rw [Metered, hf.history]
    exact (Option.map_id' ..).symm
  | tail hr hmove ih => exact ih.move (Reaches.tallied hf hr) (Reaches.booked hf hr) hmove

/-! ### All runs together -/

/-- **What all runs of a host add up to**, each with its events. -/
def total (f : List Event → Nat) (h : Host) : Nat :=
  ∑ r ∈ Finset.range h.runs.length, f (eventsOf r h.history)

/-- What happened, happened to a run that was asked for. -/
theorem Reaches.run_lt (hf : h₀.Fresh) (hr : Reaches s h₀ h) {x : HistoryEntry}
    (hx : x ∈ h.history) : x.run < h.runs.length := by
  by_contra hge
  have hnone : h.status? x.run = none := by
    rw [status?, List.getElem?_eq_none (Nat.le_of_not_lt hge)]
    rfl
  have hmem : x.event ∈ eventsOf x.run h.history := mem_eventsOf.mpr ⟨x.instant, hx⟩
  rw [(Reaches.allTraced hf hr).unasked x.run hnone] at hmem
  cases hmem

/-- **Each counter has grown by what the runs add to it.** -/
theorem Reaches.counters (hf : h₀.Fresh) (hr : Reaches s h₀ h) {m : Metrics}
    (hm : h₀.metrics = some m) :
    ∃ m', h.metrics = some m' ∧ m' = ChangeCapture.metered m h.history ∧
      ∀ c, Grew (m.get c) (h.total (addedTo c)) (m'.get c) := by
  have hmetered := Reaches.metered hf hr
  rw [Metered, hm] at hmetered
  refine ⟨_, hmetered, rfl, fun c => ?_⟩
  rw [total, sum_addedTo c fun x hx => Reaches.run_lt hf hr hx]
  exact grew_metered c m h.history

end Host

end ChangeCapture
