import ChangeCapture.Proofs.Run.Pace

/-!
# From polls to the consumer

Records come from a poll and go to the consumer. Of all steps only two kinds move any: a poll gives
a batch, and the next record of a batch is handed over. The consumer answers by the number of the
call among all its calls. If it accepts, the run goes on; if it rejects the record, all that is left
for the run is to part.

## Main definitions

* `polledRecords`, `handedRecords`: what the polls of a run gave, and what it handed over.
* `RunStatus.left`: what a run has still to hand over.
* `Verdict.Leaves`: where a run stands that the consumer has cut short.
* `Host.Relays`: what one step does with records.

## Main results

* `Host.advance_relays` — every step of a run relays so.
* `Host.Reaches.deliveries_eq` — the consumer was called once for each record that was handed over.
-/

namespace ChangeCapture

/-! ### Records in a history -/

/-- The records that a poll gave. -/
def Event.gave : Event → List Record
  | .polled (.batch records) => records
  | _ => []

/-- The record that was handed to the consumer. -/
def Event.handed? : Event → Option Record
  | .deliver x => some x
  | _ => none

/-- **The records that the polls of a run gave**, in their order, from its events, the newest
first. -/
def polledRecords (es : List Event) : List Record :=
  es.reverse.flatMap Event.gave

/-- **The records that a run handed to the consumer**, in their order, from its events, the newest
first. -/
def handedRecords (es : List Event) : List Record :=
  es.reverse.filterMap Event.handed?

/-- How many records were handed to the consumer, in all runs. -/
def handovers (history : List HistoryEntry) : Nat :=
  history.countP fun x => x.event.handed?.isSome

/-- Whether an event moves no record. -/
def Event.isStill : Event → Bool
  | .polled (.batch (_ :: _)) | .deliver _ => false
  | _ => true

/-- **Whether an event is one of parting**: a run whose consumer has cut it short is granted what
the consumer asked for, gives back what it holds, and ends. -/
def Event.isParting : Event → Bool
  | .controlled _ _ | .stopTask | .stopConnector | .stopStore | .notice .runFailed | .ended _ =>
    true
  | _ => false

/-- Who parts moves no record. -/
theorem Event.isStill_of_isParting {es : List Event} (h : es.all Event.isParting = true) :
    es.all Event.isStill = true := by
  refine List.all_eq_true.mpr fun e he => ?_
  have hparting := List.all_eq_true.mp h e he
  cases e <;> first | rfl | cases hparting

/-- What polls gave after more events. -/
theorem polledRecords_append (es older : List Event) :
    polledRecords (es.reverse ++ older) = polledRecords older ++ es.flatMap Event.gave := by
  simp [polledRecords]

/-- What was handed over after more events. -/
theorem handedRecords_append (es older : List Event) :
    handedRecords (es.reverse ++ older) = handedRecords older ++ es.filterMap Event.handed? := by
  simp [handedRecords]

/-- Events that move no record give none. -/
theorem flatMap_gave_still {es : List Event} (h : es.all Event.isStill = true) :
    es.flatMap Event.gave = [] := by
  refine List.flatMap_eq_nil_iff.mpr fun e he => ?_
  have hstill := List.all_eq_true.mp h e he
  cases e with
  | polled result =>
    cases result with
    | batch records =>
      cases records with
      | nil => rfl
      | cons x xs => cases hstill
    | _ => rfl
  | _ => rfl

/-- Events that move no record hand none over. -/
theorem filterMap_handed?_still {es : List Event} (h : es.all Event.isStill = true) :
    es.filterMap Event.handed? = [] := by
  refine List.filterMap_eq_nil_iff.mpr fun e he => ?_
  have hstill := List.all_eq_true.mp h e he
  cases e <;> first | rfl | cases hstill

/-- The handovers in two parts of a history. -/
theorem handovers_append (newer older : List HistoryEntry) :
    handovers (newer ++ older) = handovers newer + handovers older :=
  List.countP_append

/-- The handovers of a step. -/
theorem handovers_map (r now : Nat) (es : List Event) :
    handovers (es.map (HistoryEntry.mk r now)).reverse = (es.filterMap Event.handed?).length := by
  rw [handovers, List.countP_reverse, List.countP_map, List.length_filterMap_eq_countP]
  rfl

/-! ### What is left -/

/-- The records of its batch that a run at a stage has still to hand over. -/
def Stage.left : Stage → List Record
  | .delivering rest _ => rest
  | _ => []

/-- **The records of its batch that a run has still to hand over.** Only a run that delivers a batch
has any. -/
def RunStatus.left : RunStatus → List Record
  | .active a => a.stage.left
  | .requested | .ended _ => []

/-- **Where a run stands that the consumer has cut short.** If it rejected a record, the run returns
the report of that, or is on its way to. -/
def Verdict.Leaves : Verdict → RunStatus → Prop
  | .accepts, _ => False
  | .rejects report, st => st.result? = some (.error (.delivery report))
  | .panics, st => st = .ended .panicked

/-- Who is on the way out has nothing to hand over. -/
theorem RunStatus.left_of_result? {st : RunStatus} {result : RunResult}
    (h : st.result? = some result) : st.left = [] := by
  cases st with
  | active a =>
    rw [RunStatus.result?] at h
    rw [RunStatus.left]
    cases hs : a.stage <;> first | rfl | (rw [hs] at h; cases h)
  | _ => rfl

namespace Host

/-! ### Steps that move no record -/

/-- **Nothing is moved**: events of a run are added that move no record, and the consumer is not
called. -/
def Stills (r : Nat) (h h' : Host) : Prop :=
  ∃ es, h.Adds r es h' ∧ es.all Event.isStill = true ∧ h'.deliveries = h.deliveries

namespace Stills

variable {r : Nat} {h h' h₁ : Host}

/-- Nothing happens. -/
theorem refl (r : Nat) (h : Host) : h.Stills r h :=
  ⟨[], ⟨rfl, rfl, rfl⟩, rfl, rfl⟩

/-- Something else changes. -/
theorem also (hs : h.Stills r h₁) (history : h'.history = h₁.history) (runs : h'.runs = h₁.runs)
    (now : h'.now = h₁.now) (deliveries : h'.deliveries = h₁.deliveries) : h.Stills r h' := by
  obtain ⟨es, hadds, hes, hn⟩ := hs
  exact ⟨es, ⟨history.trans hadds.history, runs.trans hadds.runs, now.trans hadds.now⟩, hes,
    deliveries.trans hn⟩

/-- The lifecycle changes. -/
theorem withLifecycle (hs : h.Stills r h₁) (lifecycle : Lifecycle) :
    h.Stills r { h₁ with lifecycle } :=
  hs.also rfl rfl rfl rfl

/-- The store is called. -/
theorem withStore (hs : h.Stills r h₁) (store : PlannedStore) : h.Stills r { h₁ with store } :=
  hs.also rfl rfl rfl rfl

/-- The hooks of a connector are called. -/
theorem withCalls (hs : h.Stills r h₁) (startCalls createCalls taskStartCalls : Nat) :
    h.Stills r { h₁ with startCalls, createCalls, taskStartCalls } :=
  hs.also rfl rfl rfl rfl

/-- The results of polls are taken. -/
theorem withFeed (hs : h.Stills r h₁) (feed : List Polled) : h.Stills r { h₁ with feed } :=
  hs.also rfl rfl rfl rfl

/-- The writes change. -/
theorem withWrites (hs : h.Stills r h₁) (writes : List Write) (workers : List Worker) :
    h.Stills r { h₁ with writes, workers } :=
  hs.also rfl rfl rfl rfl

/-- The metrics change. -/
theorem measure (hs : h.Stills r h₁) (f : Metrics → Metrics) : h.Stills r (h₁.measure f) :=
  hs.also rfl rfl rfl rfl

/-- Events are added that move no record. -/
theorem emitAll (hs : h.Stills r h₁) {es : List Event} (hes : es.all Event.isStill = true) :
    h.Stills r (h₁.emitAll r es) := by
  obtain ⟨es₀, hadds, hes₀, hn⟩ := hs
  refine ⟨es₀ ++ es, hadds.emitAll es, ?_, ?_⟩
  · rw [List.all_append, hes₀, hes]
    rfl
  · rw [emitAll_eq]
    exact hn

/-- An event is added that moves no record. -/
theorem emit (hs : h.Stills r h₁) {e : Event} (he : e.isStill = true) :
    h.Stills r (h₁.emit r e) :=
  Stills.emitAll hs (show [e].all Event.isStill = true by rw [List.all_cons, he]; rfl)

end Stills

/-! ### What one step does with records -/

/-- **What one step does with records.** It moves none; or a poll gives a batch; or the next record
is handed over, and accepted or not. A run on its way out parts. -/
inductive Relays (s : Setup) (r : Nat) (h : Host) :
    RunStatus → List Event → RunStatus → Host → Prop where
  | rests {st st' : RunStatus} {es : List Event} {h' : Host} (hst : st.result? = none)
      (hleft : st.left = []) (hes : es.all Event.isStill = true) (hleft' : st'.left = [])
      (hn : h'.deliveries = h.deliveries) : Relays s r h st es st' h'
  | receives {a a' : Active} {batch : List Record} {h' : Host} (ha : a.stage = .polling)
      (ha' : a'.stage = .delivering batch batch) (hn : h'.deliveries = h.deliveries) :
      Relays s r h (.active a) [.polled (.batch batch)] (.active a') h'
  | hands {a a' : Active} {x : Record} {rest batch : List Record} {es : List Event} {h' : Host}
      (ha : a.stage = .delivering (x :: rest) batch)
      (hv : (s.consumer h.deliveries).verdict = .accepts) (hes : es.all Event.isStill = true)
      (ha' : a'.stage = .delivering rest batch) (hn : h'.deliveries = h.deliveries + 1) :
      Relays s r h (.active a) (.deliver x :: es) (.active a') h'
  /-- The consumer does not accept the record. -/
  | cuts {a : Active} {st' : RunStatus} {x : Record} {rest batch : List Record} {es : List Event}
      {h' : Host} (ha : a.stage = .delivering (x :: rest) batch)
      (hv : (s.consumer h.deliveries).verdict ≠ .accepts) (hes : es.all Event.isParting = true)
      (hleaves : (s.consumer h.deliveries).verdict.Leaves st')
      (hn : h'.deliveries = h.deliveries + 1) :
      Relays s r h (.active a) (.deliver x :: es) st' h'
  | parts {st st' : RunStatus} {es : List Event} {h' : Host} {result : RunResult}
      (hst : st.result? = some result) (hes : es.all Event.isParting = true)
      (hst' : st'.result? = some result) (hn : h'.deliveries = h.deliveries) :
      Relays s r h st es st' h'
  | drops {st : RunStatus} {es : List Event} {h' : Host} (hab : h.isAborting r = true)
      (hes : es.all Event.isParting = true) (hn : h'.deliveries = h.deliveries) :
      Relays s r h st es (.ended .aborted) h'

/-- What is known of the records that a step moves. -/
def Relayed (s : Setup) (r : Nat) (h : Host) (st : RunStatus) (p : Progress) : Prop :=
  p.Leads fun st' h' => ∃ es, h.Adds r es h' ∧ Relays s r h st es st' h'

variable {s : Setup} {r : Nat} {h h' h₀ h₁ : Host} {st : RunStatus} {a a' : Active}

namespace Stills

/-- A run goes on, and has no record to hand over. -/
theorem goesOn (hs : h.Stills r h') (hst : st.result? = none) (hleft : st.left = [])
    (hleft' : a'.stage.left = []) : h.Relayed s r st (.goesOn a' h') := by
  obtain ⟨es, hadds, hes, hn⟩ := hs
  exact ⟨es, hadds, .rests hst hleft hes hleft' hn⟩

/-- A run ends without a word. -/
theorem ends (hs : h.Stills r h') (hst : st.result? = none) (hleft : st.left = [])
    (outcome : RunEnd) : h.Relayed s r st (.ends outcome h') := by
  obtain ⟨es, hadds, hes, hn⟩ := hs
  exact ⟨es, hadds, .rests hst hleft hes rfl hn⟩

/-- A run gives its place free. -/
theorem close (hs : h.Stills r h₁) (hst : st.result? = none) (hleft : st.left = [])
    (outcome : RunEnd) : h.Relayed s r st (h₁.close r outcome) :=
  ((hs.withLifecycle _).emit rfl).ends hst hleft outcome

/-- A run fails. -/
theorem leave (hs : h.Stills r h₁) (hst : st.result? = none) (hleft : st.left = [])
    (result : RunResult) : h.Relayed s r st (h₁.leave r result) := by
  cases result with
  | error e => exact (hs.emit rfl).close hst hleft _
  | ok exit => exact hs.close hst hleft _

end Stills

/-! ### On the way in -/

/-- The first step of a run. -/
theorem begin_relayed (s : Setup) (r : Nat) (h : Host) :
    h.Relayed s r .requested (h.begin s r) := by
  rw [begin]
  split
  · exact (Stills.refl r h).ends rfl rfl _
  · rename_i l _
    have haccepted : h.Stills r ({ h with lifecycle := l }.emit r .accepted) :=
      ((Stills.refl r h).withLifecycle l).emit rfl
    dsimp only
    split
    · exact haccepted.leave rfl rfl _
    · split
      · exact haccepted.leave rfl rfl _
      · have hcalled := ((haccepted.emit (e := .createConnector) rfl).emit (e := .startStore) rfl)
        split
        · exact (hcalled.withStore _).close rfl rfl _
        · exact (hcalled.withStore _).goesOn rfl rfl rfl

section In

variable {call : PendingCall} {properties : Properties} {request : List (Partition × Bytes)}

/-- The store's start is waited for. -/
theorem startingStore_relayed (hst : (RunStatus.active a).result? = none)
    (hleft : (RunStatus.active a).left = []) :
    h.Relayed s r (.active a) (h.startingStore s r a call) := by
  rw [startingStore]
  split
  · trivial
  · split
    · exact (Stills.refl r h).leave hst hleft _
    · split
      · exact (Stills.refl r h).leave hst hleft _
      · exact ((((Stills.refl r h).withStore _).emit rfl).emit rfl).goesOn hst hleft rfl

/-- The connector starts, or fails to. -/
theorem startingConnector_relayed (hst : (RunStatus.active a).result? = none)
    (hleft : (RunStatus.active a).left = []) :
    h.Relayed s r (.active a) (h.startingConnector s r a) := by
  have hcalled : h.Stills r ({ h with startCalls := h.startCalls + 1 }.emit r
      (.startConnector s.config.properties)) :=
    ((Stills.refl r h).withCalls _ _ _).emit rfl
  rw [startingConnector]
  split
  · exact (hcalled.emit rfl).goesOn hst hleft rfl
  · exact hcalled.goesOn hst hleft rfl

/-- A task is created, or cannot be. -/
theorem creatingTask_relayed (hst : (RunStatus.active a).result? = none)
    (hleft : (RunStatus.active a).left = []) :
    h.Relayed s r (.active a) (h.creatingTask s r a) := by
  have hasked : h.Stills r (h.emit r (.askTaskConfigs 1)) := (Stills.refl r h).emit rfl
  rw [creatingTask]
  split
  · exact hasked.goesOn hst hleft rfl
  · dsimp only
    split
    · exact ((hasked.withCalls _ _ _).emit rfl).goesOn hst hleft rfl
    · exact (((hasked.withCalls _ _ _).emit rfl).emit rfl).goesOn hst hleft rfl

/-- A task starts, or fails to, or asks for committed offsets first. -/
theorem startingTask_relayed (hst : (RunStatus.active a).result? = none)
    (hleft : (RunStatus.active a).left = []) :
    h.Relayed s r (.active a) (h.startingTask s r a properties) := by
  have hstarted : h.Stills r ({ h with taskStartCalls := h.taskStartCalls + 1 }.emit r
      (.startTask properties)) :=
    ((Stills.refl r h).withCalls _ _ _).emit rfl
  rw [startingTask]
  split
  · exact (hstarted.emit rfl).goesOn hst hleft rfl
  · exact (hstarted.emit rfl).goesOn hst hleft rfl
  · split
    · exact (hstarted.emit rfl).goesOn hst hleft rfl
    · dsimp only
      split
      · exact ((hstarted.withStore _).emit rfl).close hst hleft _
      · exact ((hstarted.withStore _).emit rfl).goesOn hst hleft rfl

/-- The committed offsets are waited for, and given to the task. -/
theorem resuming_relayed (hst : (RunStatus.active a).result? = none)
    (hleft : (RunStatus.active a).left = []) :
    h.Relayed s r (.active a) (h.resuming s r a call request) := by
  rw [resuming]
  split
  · trivial
  · split
    · exact ((Stills.refl r h).emit rfl).goesOn hst hleft rfl
    · refine ((((Stills.refl r h).emitAll ?_).emit rfl).emit rfl).goesOn hst hleft rfl
      simp [Event.isStill]

end In

/-! ### In the loop -/

/-- The top of the loop. -/
theorem looping_relayed (hst : (RunStatus.active a).result? = none)
    (hleft : (RunStatus.active a).left = []) : h.Relayed s r (.active a) (h.looping r a) := by
  rw [looping]
  split
  · exact (((Stills.refl r h).withLifecycle _).emit rfl).goesOn hst hleft rfl
  · split
    · exact ((Stills.refl r h).emit rfl).goesOn hst hleft rfl
    · exact (Stills.refl r h).goesOn hst hleft rfl

/-- A poll is waited for, and what it gave is looked at. -/
theorem polling_relayed (ha : a.stage = .polling) :
    h.Relayed s r (.active a) (h.polling r a) := by
  have hst : (RunStatus.active a).result? = none := by rw [RunStatus.result?, ha]; rfl
  have hleft : (RunStatus.active a).left = [] := by rw [RunStatus.left, ha]; rfl
  rw [polling]
  split
  · exact (((Stills.refl r h).withLifecycle _).emit rfl).goesOn hst hleft rfl
  · split
    · trivial
    · rename_i result feed _
      have hpolled : (Event.polled result).isStill = true →
          h.Stills r ({ h with feed }.emit r (.polled result)) :=
        ((Stills.refl r h).withFeed feed).emit
      cases result with
      | nothing => exact (hpolled rfl).goesOn hst hleft rfl
      | batch records =>
        cases records with
        | nil => exact (hpolled rfl).goesOn hst hleft rfl
        | cons x xs => exact ⟨[.polled (.batch (x :: xs))], ⟨rfl, rfl, rfl⟩, .receives ha rfl rfl⟩
      | fails e =>
        cases e with
        | interrupted =>
          exact (((hpolled rfl).withLifecycle _).emit rfl).goesOn hst hleft rfl
        | noTaskConfig | offset | failed => exact (hpolled rfl).goesOn hst hleft rfl
      | panics => exact (hpolled rfl).close hst hleft _

/-- What a consumer asks for moves no record. -/
theorem isParting_replies (cs : List Control) (l : Lifecycle) :
    (l.replies cs).all Event.isParting = true := by
  induction cs generalizing l with
  | nil => rfl
  | cons c cs ih => exact ih (l.heed c)

/-- **A record is handed over**: the consumer is called, and what it asks of the run comes before
its verdict. -/
theorem exists_handed (s : Setup) (r : Nat) (x : Record) (h : Host) :
    ∃ h₁, (s.consumer h.deliveries).asks.foldl (fun h c => h.control r c)
        ({ h with deliveries := h.deliveries + 1 }.emit r (.deliver x)) = h₁ ∧
      h.Adds r (.deliver x :: h.lifecycle.replies (s.consumer h.deliveries).asks) h₁ ∧
      h₁.deliveries = h.deliveries + 1 := by
  have hdeliver : h.Adds r [.deliver x]
      { { h with deliveries := h.deliveries + 1 }.emit r (.deliver x) with
        lifecycle := h.lifecycle.heedAll (s.consumer h.deliveries).asks } := ⟨rfl, rfl, rfl⟩
  refine ⟨_, foldl_control_eq r _ _, hdeliver.emitAll _, ?_⟩
  rw [emitAll_eq]
  rfl

/-- The next record is handed over, or the last one was. -/
theorem delivering_relayed {rest batch : List Record} (ha : a.stage = .delivering rest batch) :
    h.Relayed s r (.active a) (h.delivering s r a rest batch) := by
  cases rest with
  | nil =>
    have hst : (RunStatus.active a).result? = none := by rw [RunStatus.result?, ha]; rfl
    have hleft : (RunStatus.active a).left = [] := by rw [RunStatus.left, ha]; rfl
    exact (((Stills.refl r h).measure _).emit rfl).goesOn hst hleft rfl
  | cons x rest =>
    obtain ⟨h₁, heq, hadds, hn⟩ := exists_handed s r x h
    have hreplies := isParting_replies (s.consumer h.deliveries).asks h.lifecycle
    simp only [delivering, heq]
    split
    · rename_i hv
      refine ⟨_, hadds.emit (.taken x), .hands ha hv ?_ rfl hn⟩
      exact (List.all_append ..).trans (by rw [Event.isStill_of_isParting hreplies]; rfl)
    · rename_i report hv
      exact ⟨_, hadds, .cuts ha (by simp [hv]) hreplies (by rw [hv]; rfl) hn⟩
    · rename_i hv
      have hclose := hadds.emit (.ended .panicked)
      refine ⟨_, ⟨hclose.history, hclose.runs, hclose.now⟩, .cuts ha (by simp [hv]) ?_ ?_ hn⟩
      · exact (List.all_append ..).trans (by rw [hreplies]; rfl)
      · rw [hv]
        rfl

/-! ### Committing -/

section Commit

variable {final : Bool}

/-- Nobody has records to hand over after a commit, or after none. -/
theorem left_afterCommit (a : Active) (final : Bool) : (afterCommit a final).stage.left = [] := by
  cases final <;> rfl

/-- The policy is consulted. -/
theorem consulting_relayed (hst : (RunStatus.active a).result? = none)
    (hleft : (RunStatus.active a).left = []) :
    h.Relayed s r (.active a) (h.consulting s r a final) := by
  have idles : ∀ {h₁ : Host} {b : Active}, h.Stills r h₁ →
      h.Relayed s r (.active a) (.goesOn (afterCommit b final) h₁) := fun hs =>
    hs.goesOn hst hleft (left_afterCommit _ final)
  have hconsulted : ∀ fired, h.Stills r ((h.emitAll r
      ((s.policy.probes a.records (h.now - a.lastCommit)).map fun p => Event.probed p.1 p.2)).emit r
        (.consulted a.records (h.now - a.lastCommit) fired)) := fun fired =>
    ((Stills.refl r h).emitAll (by simp [Event.isStill])).emit rfl
  rw [consulting]
  split
  · rw [flush]
    split
    · exact idles (((hconsulted _).emitAll rfl).measure _)
    · exact idles (hconsulted _)
    · rw [submit]
      split
      · exact idles (hconsulted _)
      · exact idles (((hconsulted _).emitAll rfl).measure _)
      · exact (((hconsulted _).withWrites _ _).emit rfl).goesOn hst hleft rfl
  · exact idles (hconsulted _)

/-- A flush is waited for. -/
theorem flushing_relayed {number deadline : Nat} (hst : (RunStatus.active a).result? = none)
    (hleft : (RunStatus.active a).left = []) :
    h.Relayed s r (.active a) (h.flushing r a number deadline final) := by
  have idles : ∀ {h₁ : Host} {b : Active}, h.Stills r h₁ →
      h.Relayed s r (.active a) (.goesOn (afterCommit b final) h₁) := fun hs =>
    hs.goesOn hst hleft (left_afterCommit _ final)
  have givesUp : ∀ why, h.Relayed s r (.active a) (h.giveUp r a number final why) := fun why =>
    idles (((((Stills.refl r h).withWrites _ _).emit rfl).emit rfl).measure _)
  rw [flushing]
  split
  · exact givesUp _
  · split
    · exact givesUp _
    · split
      · rw [commit]
        split
        · exact idles (((Stills.refl r h).measure _).emit rfl)
        · exact idles ((((Stills.refl r h).measure _).emit rfl).emit rfl)
      · exact givesUp _
      · split
        · exact givesUp _
        · trivial

end Commit

/-! ### Every step -/

/-- A hook on the way out. -/
theorem relayed_parts {result : RunResult} (e : Event) (hst : a.stage.result? = some result)
    (he : e.isParting = true) (hst' : a'.stage.result? = some result) :
    h.Relayed s r (.active a) (.goesOn a' (h.emit r e)) :=
  ⟨[e], ⟨rfl, rfl, rfl⟩, .parts hst (by simp [he]) hst' rfl⟩

/-- The last step of a run. -/
theorem leaving_relayed {result : RunResult} (hst : a.stage.result? = some result) :
    h.Relayed s r (.active a) (h.leave r result) := by
  cases result with
  | error e =>
    exact ⟨closing (.error e), ⟨rfl, rfl, rfl⟩, .parts hst rfl rfl rfl⟩
  | ok exit => exact ⟨closing (.ok exit), ⟨rfl, rfl, rfl⟩, .parts hst rfl rfl rfl⟩

/-- **What the step of an accepted run does with records.** -/
theorem step_relayed (s : Setup) (r : Nat) (a : Active) (h : Host) :
    h.Relayed s r (.active a) (h.step s r a) := by
  have at_rest : ∀ {stage : Stage}, a.stage = stage → stage.result? = none → stage.left = [] →
      (RunStatus.active a).result? = none ∧ (RunStatus.active a).left = [] := by
    rintro _ rfl hst hleft
    exact ⟨hst, hleft⟩
  rw [step]
  split
  next ha => exact startingStore_relayed (at_rest ha rfl rfl).1 (at_rest ha rfl rfl).2
  next ha => exact startingConnector_relayed (at_rest ha rfl rfl).1 (at_rest ha rfl rfl).2
  next ha => exact creatingTask_relayed (at_rest ha rfl rfl).1 (at_rest ha rfl rfl).2
  next ha => exact startingTask_relayed (at_rest ha rfl rfl).1 (at_rest ha rfl rfl).2
  next ha => exact resuming_relayed (at_rest ha rfl rfl).1 (at_rest ha rfl rfl).2
  next ha => exact looping_relayed (at_rest ha rfl rfl).1 (at_rest ha rfl rfl).2
  next ha => exact polling_relayed ha
  next ha => exact delivering_relayed ha
  next ha => exact consulting_relayed (at_rest ha rfl rfl).1 (at_rest ha rfl rfl).2
  next ha => exact flushing_relayed (at_rest ha rfl rfl).1 (at_rest ha rfl rfl).2
  next ha => exact relayed_parts .stopTask (by rw [ha]; rfl) rfl rfl
  next ha => exact relayed_parts .stopConnector (by rw [ha]; rfl) rfl rfl
  next ha => exact relayed_parts .stopStore (by rw [ha]; rfl) rfl rfl
  next ha => exact leaving_relayed (by rw [ha]; rfl)

/-- A run that is dropped. -/
theorem dropRun_relayed (s : Setup) (hab : h.isAborting r = true) (st : RunStatus) :
    h.Relayed s r st (h.dropRun r st) := by
  cases st with
  | requested => exact ⟨[], ⟨rfl, rfl, rfl⟩, .drops hab rfl rfl⟩
  | active a => exact ⟨[.ended .aborted], ⟨rfl, rfl, rfl⟩, .drops hab rfl rfl⟩
  | ended outcome => trivial

/-- A run that is asked for and not to be dropped takes its first step. -/
theorem advance_eq_begin (hab : h.isAborting r = false) (hst : h.status? r = some .requested) :
    h.advance s r = absorb r (h.begin s r) := by
  obtain ⟨run, hrun, hrequested⟩ := Option.map_eq_some_iff.mp hst
  rw [isAborting, hrun, Option.any_some] at hab
  rw [Host.advance, hrun]
  dsimp only
  rw [hab, hrequested, if_neg Bool.false_ne_true]

/-- What a step leads to is written down. -/
theorem exists_of_absorb {Q : RunStatus → Host → Prop} {p : Progress} (hp : p.Leads Q)
    (habs : absorb r p = some h') : ∃ st' h₁, Q st' h₁ ∧ h' = h₁.setStatus r st' := by
  cases p with
  | blocked => cases habs
  | goesOn a h₁ | ends outcome h₁ => exact ⟨_, h₁, hp, (Option.some.inj habs).symm⟩

/-- **Every step of a run relays so**, and then it is written down how far the run is. -/
theorem advance_relays (hadv : h.advance s r = some h') :
    ∃ st es st' h₁, h.status? r = some st ∧ (∀ outcome, st ≠ .ended outcome) ∧ h.Adds r es h₁ ∧
      Relays s r h st es st' h₁ ∧ h' = h₁.setStatus r st' := by
  obtain ⟨st, -, -, -, hst, hlive, -, -⟩ := advance_acts hadv
  have hrelayed : ∃ p, h.Relayed s r st p ∧ absorb r p = some h' := by
    cases hab : h.isAborting r with
    | true => exact ⟨_, dropRun_relayed s hab st, advance_eq_drop hab hst ▸ hadv⟩
    | false =>
      cases st with
      | requested => exact ⟨_, begin_relayed s r h, advance_eq_begin hab hst ▸ hadv⟩
      | active a => exact ⟨_, step_relayed s r a h, advance_eq_step hab hst ▸ hadv⟩
      | ended outcome => exact absurd rfl (hlive outcome)
  obtain ⟨p, hp, habs⟩ := hrelayed
  obtain ⟨st', h₁, ⟨es, hadds, hrelays⟩, heq⟩ := exists_of_absorb hp habs
  exact ⟨st, es, st', h₁, hst, hlive, hadds, hrelays, heq⟩

/-! ### The calls of the consumer -/

/-- One step calls the consumer once for each record that it hands over. -/
theorem Relays.deliveries {es : List Event} {st' : RunStatus} (hr : Relays s r h st es st' h') :
    h'.deliveries = h.deliveries + (es.filterMap Event.handed?).length := by
  cases hr with
  | rests _ _ hes _ hn => rw [hn, filterMap_handed?_still hes]; rfl
  | receives _ _ hn => exact hn
  | hands _ _ hes _ hn => rw [hn, List.filterMap_cons, filterMap_handed?_still hes]; rfl
  | cuts _ _ hes _ hn =>
    rw [hn, List.filterMap_cons, filterMap_handed?_still (Event.isStill_of_isParting hes)]
    rfl
  | parts _ hes _ hn | drops _ hes hn =>
    rw [hn, filterMap_handed?_still (Event.isStill_of_isParting hes)]
    rfl

/-- A turn of a write does not call the consumer. -/
theorem deliveries_turnWrite (n : Nat) (h : Host) :
    (h.turnWrite n).deliveries = h.deliveries := by
  rw [turnWrite]
  split
  · rfl
  · dsimp only
    rw [emitAll_eq]

/-- **The consumer was called once for each record that was handed over.** -/
theorem Reaches.deliveries_eq (hf : h₀.Fresh) (hr : Reaches s h₀ h) :
    h.deliveries = h₀.deliveries + handovers h.history := by
  induction hr with
  | refl => rw [hf.history]; rfl
  | @tail h h' _ hm ih =>
    cases hm with
    | write n =>
      obtain heq | ⟨w, status, es, hw⟩ := turnWrite_cases n h
      · rw [heq]
        exact ih
      · have hstill : es.filterMap Event.handed? = [] := by
          refine List.filterMap_eq_nil_iff.mpr fun e he => ?_
          obtain rfl | ⟨_, rfl⟩ | rfl := hw.events e he <;> rfl
        rw [hw.adds.history, handovers_append, handovers_map, hstill]
        rw [deliveries_turnWrite, ih, List.length_nil, Nat.zero_add]
    | run r hadv =>
      obtain ⟨st, es, st', h₁, -, -, hadds, hrelays, rfl⟩ := advance_relays hadv
      change h₁.deliveries = h₀.deliveries + handovers h₁.history
      rw [hrelays.deliveries, ih, hadds.history, handovers_append, handovers_map]
      omega
    | _ => exact ih

end Host

end ChangeCapture
