import ChangeCapture.Proofs.Run.Cleanup
import ChangeCapture.Proofs.Run.Flow

/-!
# The counters of a run

A run counts the records that it delivered since its last confirmed flush, and keeps the instant of
that flush. Both are set as its loop begins; a delivered batch adds to the one, a confirmed flush
sets both anew, and nothing else changes them: neither a flush that is given up nor one that is not
begun.

The policy is consulted at one stage only, with what the counters say there. If it agrees, and
something is pending, the flush is submitted in the same step.

## Main definitions

* `Host.Counts`: what one step does to the counters, and how it commits.
* `consultation`: the events of a consulted policy.

## Main results

* `Host.advance_counts` — every step of a run counts so.
* `Host.Reaches.counted` — what is kept by the counting steps of a run, by its writes and by time is
  true of a run wherever it stands.
-/

namespace ChangeCapture

/-- Whether an event tells nothing of the counters of a run, of its commits, or of its interrupt. -/
def Event.isUncounted : Event → Bool
  | .loopBegun | .delivered _ | .interruptCleared | .probed _ _ | .consulted _ _ _ | .submitted _ _
  | .committed _ | .givenUp _ => false
  | _ => true

/-- Whether a run consults the policy or waits for a flush. -/
def Stage.isCommitting : Stage → Bool
  | .consulting _ | .flushing _ _ _ => true
  | _ => false

/-- A run that commits is in its loop, or at its last commit. -/
theorem Stage.phase_of_isCommitting {stage : Stage} (h : stage.isCommitting = true) :
    stage.phase = .loop ∨ stage.phase = .final := by
  cases stage with
  | consulting final | flushing _ _ final =>
    cases final
    · exact .inl rfl
    · exact .inr rfl
  | _ => cases h

/-- A run that is neither in its loop nor at its last commit does not commit. -/
theorem Stage.isCommitting_of_phase {stage : Stage} (hloop : stage.phase ≠ .loop)
    (hfinal : stage.phase ≠ .final) : stage.isCommitting = false := by
  refine Bool.eq_false_iff.mpr fun hcommit => ?_
  rcases Stage.phase_of_isCommitting hcommit with hp | hp
  · exact hloop hp
  · exact hfinal hp

/-- The events of a policy that is consulted: its probes, and its answer to the counters. -/
def consultation (s : Setup) (now : Nat) (a : Active) : List Event :=
  ((s.policy.probes a.records (now - a.lastCommit)).map fun p => Event.probed p.1 p.2) ++
    [.consulted a.records (now - a.lastCommit) (s.policy.fires a.records (now - a.lastCommit))]

/-- What the policy was asked, and what it said. -/
def Event.consultation? : Event → Option (Nat × Nat × Bool)
  | .consulted records elapsed fired => some (records, elapsed, fired)
  | _ => none

/-- Only a consulted policy was asked. -/
theorem Event.consultation?_eq_some {e : Event} {records elapsed : Nat} {fired : Bool}
    (h : e.consultation? = some (records, elapsed, fired)) :
    e = .consulted records elapsed fired := by
  cases e with
  | consulted =>
    obtain ⟨rfl, rfl, rfl⟩ := h
    rfl
  | _ => cases h

/-- Two runs agree on their counters. -/
structure Active.CountsAs (a a' : Active) : Prop where
  records : a'.records = a.records
  lastCommit : a'.lastCommit = a.lastCommit

/-- Whether a run that does not commit may go from one phase to another: it stays in a phase, or
leaves it with a result that is no interrupt. -/
def Phase.LeadsTo (p p' : Phase) : Prop :=
  p' = p ∨ p.isOver = false ∧ ∃ result, p' = .out result ∧ result ≠ .ok .interrupted

/-- A run leaves a phase with a result that is no interrupt. -/
theorem Phase.leadsTo_out {p : Phase} {result : RunResult} (hp : p.isOver = false)
    (hresult : result ≠ .ok .interrupted) : p.LeadsTo (.out result) :=
  .inr ⟨hp, result, rfl, hresult⟩

namespace Host

/-- **What one step does to the counters of a run**, and how it commits. -/
inductive Counts (s : Setup) (h : Host) : RunStatus → List Event → RunStatus → Prop where
  | starts {es : List Event} {a' : Active} (hes : es.all Event.isUncounted = true)
      (ha' : a'.stage.phase = .startUp) (hr : a'.records = 0) :
      Counts s h .requested es (.active a')
  /-- A run that commits only ends where it is dropped. -/
  | ends {st : RunStatus} {es : List Event} {outcome : RunEnd}
      (hes : es.all Event.isUncounted = true)
      (hdrop : ∀ a, st = .active a → a.stage.isCommitting = true → es = [.ended .aborted])
      (hexit : outcome = .returned (.ok .interrupted) →
        ∃ a, st = .active a ∧ a.stage.phase = .out (.ok .interrupted)) :
      Counts s h st es (.ended outcome)
  | keeps {a a' : Active} {es : List Event} (hes : es.all Event.isUncounted = true)
      (ha : a.stage.isCommitting = false) (ha' : a'.stage.isCommitting = false)
      (hphase : a.stage.phase.LeadsTo a'.stage.phase) (hc : a.CountsAs a') :
      Counts s h (.active a) es (.active a')
  | begins {a a' : Active} {es : List Event} (hes : es.all Event.isUncounted = true)
      (ha : a.stage.phase = .startUp) (ha' : a'.stage = .looping) (hr : a'.records = 0)
      (hl : a'.lastCommit = h.now) : Counts s h (.active a) (es ++ [.loopBegun]) (.active a')
  | delivers {a a' : Active} {batch : List Record} (ha : a.stage = .delivering [] batch)
      (ha' : a'.stage = .consulting false) (hr : a'.records = a.records + batch.length)
      (hl : a'.lastCommit = a.lastCommit) : Counts s h (.active a) [.delivered batch] (.active a')
  /-- An interrupt is taken note of, or the task reports one. -/
  | heeds {a a' : Active} {es : List Event} (hes : es.all Event.isUncounted = true)
      (ha : a.stage = .looping ∨ a.stage = .polling) (ha' : a'.stage = .consulting true)
      (hc : a.CountsAs a') : Counts s h (.active a) (es ++ [.interruptCleared]) (.active a')
  /-- The policy declines, or there is nothing that could be submitted. -/
  | skips {a a' : Active} {es : List Event} {final : Bool} (ha : a.stage = .consulting final)
      (hno : s.policy.fires a.records (h.now - a.lastCommit) = true → ∀ w flushId entries,
        a.writer.beginFlush = .ok (some w) → w.submit.1 ≠ .submitted flushId entries)
      (hes : es.all Event.isUncounted = true) (ha' : a'.stage = (afterCommit a final).stage)
      (hc : a.CountsAs a') : Counts s h (.active a) (consultation s h.now a ++ es) (.active a')
  | submits {a a' : Active} {w : OffsetWriter} {flushId deadline : Nat} {entries : Entries}
      {final : Bool} (ha : a.stage = .consulting final)
      (hfires : s.policy.fires a.records (h.now - a.lastCommit) = true)
      (hbegin : a.writer.beginFlush = .ok (some w))
      (hsubmit : w.submit.1 = .submitted flushId entries)
      (ha' : a'.stage = .flushing h.writes.length deadline final)
      (hc : a.CountsAs a') :
      Counts s h (.active a) (consultation s h.now a ++ [.submitted h.writes.length entries])
        (.active a')
  | commits {a a' : Active} {es : List Event} {number deadline : Nat} {final : Bool}
      (ha : a.stage = .flushing number deadline final) (hes : es.all Event.isUncounted = true)
      (ha' : a'.stage = (afterCommit a final).stage) (hr : a'.records = 0)
      (hl : a'.lastCommit = h.now) :
      Counts s h (.active a) (es ++ [.committed number]) (.active a')
  | givesUp {a a' : Active} {why : Notice} {number deadline : Nat} {final : Bool}
      (ha : a.stage = .flushing number deadline final)
      (ha' : a'.stage = (afterCommit a final).stage) (hc : a.CountsAs a') :
      Counts s h (.active a) [.notice why, .givenUp number] (.active a')

/-- What is known of the counting of a step that was taken. -/
def Counted (s : Setup) (r : Nat) (h : Host) (st : RunStatus) (p : Progress) : Prop :=
  p.Leads fun st' h' => ∃ es, h.Adds r es h' ∧ Counts s h st es st'

variable {s : Setup} {r : Nat} {h h' h₁ : Host} {a a' : Active}

/-! ### The end of a run -/

/-- A run gives its place free. -/
theorem counted_close (es : List Event) {st : RunStatus} {outcome : RunEnd} (adds : h.Adds r es h₁)
    (hes : es.all Event.isUncounted = true)
    (hdrop : ∀ a, st = .active a → a.stage.isCommitting = true → es = [] ∧ outcome = .aborted)
    (hexit : outcome = .returned (.ok .interrupted) →
      ∃ a, st = .active a ∧ a.stage.phase = .out (.ok .interrupted)) :
    h.Counted s r st (h₁.close r outcome) := by
  have hfinish : h.Adds r es { h₁ with lifecycle := h₁.lifecycle.finish } :=
    ⟨adds.history, adds.runs, adds.now⟩
  refine ⟨_, hfinish.emit _, .ends ?_ ?_ hexit⟩
  · rw [List.all_append, hes]
    rfl
  · intro a ha hcommit
    obtain ⟨rfl, rfl⟩ := hdrop a ha hcommit
    rfl

/-- A run that does not commit panics. -/
theorem counted_panics (es : List Event) {st : RunStatus} (adds : h.Adds r es h₁)
    (hes : es.all Event.isUncounted = true)
    (hst : ∀ a, st = .active a → a.stage.isCommitting = false) :
    h.Counted s r st (h₁.close r .panicked) := by
  refine counted_close es adds hes ?_ nofun
  intro a ha hcommit
  rw [hst a ha] at hcommit
  cases hcommit

/-- A run that does not commit returns. -/
theorem counted_leave (es : List Event) {st : RunStatus} {result : RunResult}
    (adds : h.Adds r es h₁) (hes : es.all Event.isUncounted = true)
    (hst : ∀ a, st = .active a → a.stage.isCommitting = false)
    (hexit : result = .ok .interrupted → ∃ a, st = .active a ∧ a.stage.phase = .out result) :
    h.Counted s r st (h₁.leave r result) := by
  have hdrop : ∀ {es : List Event} {outcome : RunEnd}, ∀ a, st = .active a →
      a.stage.isCommitting = true → es = [] ∧ outcome = .aborted := by
    intro es outcome a ha hcommit
    rw [hst a ha] at hcommit
    cases hcommit
  cases result with
  | error e =>
    refine counted_close _ (adds.emit (.notice .runFailed)) ?_ hdrop nofun
    rw [List.all_append, hes]
    rfl
  | ok exit =>
    refine counted_close es adds hes hdrop ?_
    rintro ⟨⟩
    exact hexit rfl

/-! ### On the way in -/

/-- The first step of a run. -/
theorem begin_counted (s : Setup) (r : Nat) (h : Host) :
    h.Counted s r .requested (h.begin s r) := by
  have hnone : ∀ a : Active, RunStatus.requested = .active a → a.stage.isCommitting = false := by
    rintro a ⟨⟩
  have fails : ∀ l e, h.Counted s r .requested
      (({ h with lifecycle := l }.emit r .accepted).leave r (.error e)) := fun _ _ =>
    counted_leave [.accepted] ⟨rfl, rfl, rfl⟩ rfl hnone (by simp)
  rw [begin]
  split
  · exact ⟨[], ⟨rfl, rfl, rfl⟩, .ends rfl (by simp) (by simp)⟩
  · dsimp only
    split
    · exact fails _ _
    · split
      · exact fails _ _
      · simp only [PlannedStore.callStart]
        split
        · exact counted_panics [.accepted, .createConnector, .startStore] ⟨rfl, rfl, rfl⟩ rfl hnone
        · exact ⟨[.accepted, .createConnector, .startStore], ⟨rfl, rfl, rfl⟩, .starts rfl rfl rfl⟩

/-- A step that neither begins the loop, nor delivers, nor commits. -/
theorem counted_keeps (es : List Event) (adds : h.Adds r es h')
    (hes : es.all Event.isUncounted = true) (ha : a.stage.isCommitting = false)
    (ha' : a'.stage.isCommitting = false) (hphase : a.stage.phase.LeadsTo a'.stage.phase)
    (hc : a.CountsAs a') : h.Counted s r (.active a) (.goesOn a' h') :=
  ⟨es, adds, .keeps hes ha ha' hphase hc⟩

section In

variable {call : PendingCall} {properties : Properties} {request : List (Partition × Bytes)}

/-- A run on the way in goes on there, or fails. -/
theorem counted_prepares (es : List Event) (adds : h.Adds r es h')
    (hes : es.all Event.isUncounted = true) (ha : a.stage.phase = .startUp)
    (ha' : a'.stage.phase = .startUp ∨ ∃ e, a'.stage.phase = .out (.error e))
    (hc : a.CountsAs a') : h.Counted s r (.active a) (.goesOn a' h') := by
  refine counted_keeps es adds hes ?_ ?_ ?_ hc
  · exact Stage.isCommitting_of_phase (by rw [ha]; nofun) (by rw [ha]; nofun)
  · rcases ha' with hp | ⟨e, hp⟩
    · exact Stage.isCommitting_of_phase (by rw [hp]; nofun) (by rw [hp]; nofun)
    · exact Stage.isCommitting_of_phase (by rw [hp]; nofun) (by rw [hp]; nofun)
  · rw [ha]
    rcases ha' with hp | ⟨e, hp⟩ <;> rw [hp]
    · exact .inl rfl
    · exact Phase.leadsTo_out rfl (by simp)

/-- The store's start is waited for. -/
theorem startingStore_counted (ha : a.stage = .startingStore call) :
    h.Counted s r (.active a) (h.startingStore s r a call) := by
  have fails : ∀ e, h.Counted s r (.active a) (h.leave r (.error e)) := by
    intro e
    refine counted_leave [] ⟨rfl, rfl, rfl⟩ rfl ?_ nofun
    rintro _ ⟨⟩
    rw [ha]
    rfl
  rw [startingStore]
  split
  · trivial
  · split
    · exact fails _
    · split
      · exact fails _
      · exact counted_prepares [.storeStarted, .equipConnector s.config.name] ⟨rfl, rfl, rfl⟩ rfl
          (by rw [ha]; rfl) (.inl rfl) ⟨rfl, rfl⟩

/-- The connector starts, or fails to. -/
theorem startingConnector_counted (ha : a.stage = .startingConnector) :
    h.Counted s r (.active a) (h.startingConnector s r a) := by
  have hup : a.stage.phase = .startUp := by rw [ha]; rfl
  simp only [startingConnector]
  split
  · exact counted_prepares [.startConnector s.config.properties, .notice .connectorNotStarted]
      ⟨rfl, rfl, rfl⟩ rfl hup (.inr ⟨_, rfl⟩) ⟨rfl, rfl⟩
  · exact counted_prepares [.startConnector s.config.properties] ⟨rfl, rfl, rfl⟩ rfl hup (.inl rfl)
      ⟨rfl, rfl⟩

/-- A task is created, or cannot be. -/
theorem creatingTask_counted (ha : a.stage = .creatingTask) :
    h.Counted s r (.active a) (h.creatingTask s r a) := by
  have hup : a.stage.phase = .startUp := by rw [ha]; rfl
  simp only [creatingTask]
  split
  · exact counted_prepares [.askTaskConfigs 1] ⟨rfl, rfl, rfl⟩ rfl hup (.inr ⟨_, rfl⟩) ⟨rfl, rfl⟩
  · split
    · exact counted_prepares [.askTaskConfigs 1, .createTask] ⟨rfl, rfl, rfl⟩ rfl hup
        (.inr ⟨_, rfl⟩) ⟨rfl, rfl⟩
    · exact counted_prepares [.askTaskConfigs 1, .createTask, .equipTask] ⟨rfl, rfl, rfl⟩ rfl hup
        (.inl rfl) ⟨rfl, rfl⟩

/-- A task starts, or fails to, or asks for committed offsets first. -/
theorem startingTask_counted (ha : a.stage = .startingTask properties) :
    h.Counted s r (.active a) (h.startingTask s r a properties) := by
  have hup : a.stage.phase = .startUp := by rw [ha]; rfl
  have refuses : ∀ e, h.Counted s r (.active a)
      (({ h with taskStartCalls := h.taskStartCalls + 1 }.emit r (.startTask properties)).refuseTask
        r a e) := fun _ =>
    counted_prepares [.startTask properties, .notice .taskNotStarted] ⟨rfl, rfl, rfl⟩ rfl hup
      (.inr ⟨_, rfl⟩) ⟨rfl, rfl⟩
  simp only [startingTask]
  split
  · exact refuses _
  · exact ⟨[.startTask properties] ++ [.loopBegun], ⟨rfl, rfl, rfl⟩, .begins rfl hup rfl rfl rfl⟩
  · split
    · exact refuses _
    · rename_i keys hkeys
      simp only [PlannedStore.callGet]
      split
      · refine counted_panics [.startTask properties, .getFromStore keys] ⟨rfl, rfl, rfl⟩ rfl ?_
        rintro _ ⟨⟩
        rw [ha]
        rfl
      · exact counted_prepares [.startTask properties, .getFromStore keys] ⟨rfl, rfl, rfl⟩ rfl hup
          (.inl rfl) ⟨rfl, rfl⟩

/-- The committed offsets are waited for, and given to the task. -/
theorem resuming_counted (ha : a.stage = .resuming call request) :
    h.Counted s r (.active a) (h.resuming s r a call request) := by
  have hup : a.stage.phase = .startUp := by rw [ha]; rfl
  rw [resuming]
  split
  · trivial
  · split
    · exact counted_prepares [.notice .taskNotStarted] ⟨rfl, rfl, rfl⟩ rfl hup (.inr ⟨_, rfl⟩)
        ⟨rfl, rfl⟩
    · dsimp only
      generalize s.offsetFormat.collect
        (h.store.store.get (request.map Prod.snd)) request = found
      have hnothing : h.Adds r [] h := ⟨rfl, rfl, rfl⟩
      refine ⟨_, ((hnothing.emitAll (found.notices.map .notice)).emit _).emit _, ?_⟩
      rw [emitAll_eq]
      refine .begins ?_ hup rfl rfl rfl
      simp [Event.isUncounted]

end In

/-! ### In the loop -/

/-- An interrupt is taken note of. -/
theorem counted_heeds (es : List Event) (adds : h.Adds r (es ++ [.interruptCleared]) h')
    (hes : es.all Event.isUncounted = true) (ha : a.stage = .looping ∨ a.stage = .polling)
    (ha' : a'.stage = .consulting true) (hc : a.CountsAs a') :
    h.Counted s r (.active a) (.goesOn a' h') :=
  ⟨_, adds, .heeds hes ha ha' hc⟩

/-- The top of the loop. -/
theorem looping_counted (ha : a.stage = .looping) : h.Counted s r (.active a) (h.looping r a) := by
  have hcommit : a.stage.isCommitting = false := by rw [ha]; rfl
  have hloop : a.stage.phase = .loop := by rw [ha]; rfl
  rw [looping]
  split
  · exact counted_heeds [] ⟨rfl, rfl, rfl⟩ rfl (.inl ha) rfl ⟨rfl, rfl⟩
  · split
    · exact counted_keeps [.poll] ⟨rfl, rfl, rfl⟩ rfl hcommit rfl (.inl hloop.symm) ⟨rfl, rfl⟩
    · exact counted_keeps [] ⟨rfl, rfl, rfl⟩ rfl hcommit rfl
        (Phase.leadsTo_out (by rw [hloop]; rfl) (by simp)) ⟨rfl, rfl⟩

/-- A poll is waited for, and what it gave is looked at. -/
theorem polling_counted (ha : a.stage = .polling) : h.Counted s r (.active a) (h.polling r a) := by
  have hcommit : a.stage.isCommitting = false := by rw [ha]; rfl
  have hloop : a.stage.phase = .loop := by rw [ha]; rfl
  rw [polling]
  split
  · exact counted_heeds [] ⟨rfl, rfl, rfl⟩ rfl (.inr ha) rfl ⟨rfl, rfl⟩
  · split
    · trivial
    · rename_i result feed hfeed
      have hpolled : h.Adds r [.polled result] ({ h with feed }.emit r (.polled result)) :=
        ⟨rfl, rfl, rfl⟩
      have idles : ∀ {a' : Active}, a'.stage.isCommitting = false → a'.stage.phase = .loop →
          a.CountsAs a' →
          h.Counted s r (.active a) (.goesOn a' ({ h with feed }.emit r (.polled result))) :=
        fun ha' hp hc => counted_keeps _ hpolled rfl hcommit ha' (.inl (hp.trans hloop.symm)) hc
      rw [receive.eq_def]
      split
      · exact idles rfl rfl ⟨rfl, rfl⟩
      · exact idles rfl rfl ⟨rfl, rfl⟩
      · exact idles rfl rfl ⟨rfl, rfl⟩
      · exact counted_heeds [.polled (.fails .interrupted)] ⟨rfl, rfl, rfl⟩ rfl (.inr ha) rfl
          ⟨rfl, rfl⟩
      · exact counted_keeps _ hpolled rfl hcommit rfl
          (Phase.leadsTo_out (by rw [hloop]; rfl) (by simp)) ⟨rfl, rfl⟩
      · refine counted_panics _ hpolled rfl ?_
        rintro _ ⟨⟩
        exact hcommit

/-- What a consumer asks for counts nothing. -/
theorem isUncounted_replies (cs : List Control) (l : Lifecycle) :
    (l.replies cs).all Event.isUncounted = true := by
  induction cs generalizing l with
  | nil => rfl
  | cons c cs ih => exact ih _

/-- A record is delivered, or the last one was. -/
theorem delivering_counted {rest batch : List Record} (ha : a.stage = .delivering rest batch) :
    h.Counted s r (.active a) (h.delivering s r a rest batch) := by
  have hcommit : a.stage.isCommitting = false := by rw [ha]; rfl
  have hloop : a.stage.phase = .loop := by rw [ha]; rfl
  cases rest with
  | nil => exact ⟨[.delivered batch], ⟨rfl, rfl, rfl⟩, .delivers ha rfl rfl rfl⟩
  | cons x rest =>
    simp only [delivering, foldl_control_eq]
    generalize (s.consumer h.deliveries).asks = cs
    have hdeliver : h.Adds r [.deliver x]
        { { h with deliveries := h.deliveries + 1 }.emit r (.deliver x) with
          lifecycle := h.lifecycle.heedAll cs } := ⟨rfl, rfl, rfl⟩
    have hadds := hdeliver.emitAll (h.lifecycle.replies cs)
    rw [emitAll_eq] at hadds ⊢
    have hes : ([Event.deliver x] ++ h.lifecycle.replies cs).all Event.isUncounted = true := by
      rw [List.all_append, isUncounted_replies]
      rfl
    split
    · refine counted_keeps _ (hadds.emit (.taken x)) ?_ hcommit rfl (.inl hloop.symm) ⟨rfl, rfl⟩
      rw [List.all_append, hes]
      rfl
    · exact counted_keeps _ hadds hes hcommit rfl
        (Phase.leadsTo_out (by rw [hloop]; rfl) (by simp)) ⟨rfl, rfl⟩
    · refine counted_panics _ hadds hes ?_
      rintro _ ⟨⟩
      exact hcommit

/-! ### Committing -/

section Commit

variable {final : Bool}

/-- The policy is consulted. -/
theorem consulting_counted (ha : a.stage = .consulting final) :
    h.Counted s r (.active a) (h.consulting s r a final) := by
  have hnothing : h.Adds r [] h := ⟨rfl, rfl, rfl⟩
  have hadds : h.Adds r (consultation s h.now a) _ :=
    (hnothing.emitAll ((s.policy.probes a.records (h.now - a.lastCommit)).map
      fun p => Event.probed p.1 p.2)).emit
        (.consulted a.records (h.now - a.lastCommit)
          (s.policy.fires a.records (h.now - a.lastCommit)))
  rw [emitAll_eq] at hadds
  rw [consulting, emitAll_eq]
  have skips : ∀ (es : List Event) {h' : Host} {a' : Active},
      (s.policy.fires a.records (h.now - a.lastCommit) = true → ∀ w flushId entries,
        a.writer.beginFlush = .ok (some w) → w.submit.1 ≠ .submitted flushId entries) →
      h.Adds r (consultation s h.now a ++ es) h' → es.all Event.isUncounted = true →
      a'.stage = (afterCommit a final).stage → a.CountsAs a' →
      h.Counted s r (.active a) (.goesOn a' h') :=
    fun _ _ _ hno hadds hes ha' hc => ⟨_, hadds, .skips ha hno hes ha' hc⟩
  split
  · rename_i hfires
    rw [flush]
    split
    · rename_i e hbegin
      refine skips [.notice .snapshotOutstanding, .notice .flushNotBegun] ?_
        (hadds.emitAll _).countFailure rfl rfl ⟨rfl, rfl⟩
      intro _ w flushId entries hw
      rw [hbegin] at hw
      cases hw
    · rename_i hbegin
      refine skips [] ?_ (by rwa [List.append_nil]) rfl rfl ⟨rfl, rfl⟩
      intro _ w flushId entries hw
      rw [hbegin] at hw
      cases hw
    · rename_i w hbegin
      have same : ∀ {w' : OffsetWriter}, a.writer.beginFlush = .ok (some w') → w' = w := by
        intro w' hw
        rw [hbegin] at hw
        exact (Option.some.inj (Except.ok.inj hw)).symm
      rw [submit]
      dsimp only
      split
      · rename_i w' hsubmit
        refine skips [] ?_ (by rwa [List.append_nil]) rfl rfl ⟨rfl, rfl⟩
        intro _ w₁ flushId entries hw
        simp [same hw, hsubmit]
      · rename_i e w' hsubmit
        refine skips [.notice .snapshotUnwritable, .notice .writeFailed, .notice .flushNotSubmitted]
          ?_ (hadds.emitAll _).countFailure rfl rfl ⟨rfl, rfl⟩
        intro _ w₁ flushId entries hw
        simp [same hw, hsubmit]
      · rename_i flushId entries w' hsubmit
        exact ⟨_, (hadds.startWrite { run := r, flushId, entries }).emit
          (.submitted h.writes.length entries),
          .submits ha hfires hbegin (by rw [hsubmit]) rfl ⟨rfl, rfl⟩⟩
  · rename_i hfires
    exact skips [] (fun hyes => absurd hyes hfires) (by rwa [List.append_nil]) rfl rfl
      ⟨rfl, rfl⟩

/-- A flush is waited for. -/
theorem flushing_counted {number deadline : Nat} (ha : a.stage = .flushing number deadline final) :
    h.Counted s r (.active a) (h.flushing r a number deadline final) := by
  have givesUp : ∀ why, h.Counted s r (.active a) (h.giveUp r a number final why) := fun why =>
    ⟨[.notice why, .givenUp number], ⟨rfl, rfl, rfl⟩, .givesUp ha rfl ⟨rfl, rfl⟩⟩
  have commits : ∀ (es : List Event) {a' : Active} {h' : Host},
      h.Adds r (es ++ [.committed number]) h' → es.all Event.isUncounted = true →
      a'.stage = (afterCommit a final).stage → a'.records = 0 → a'.lastCommit = h.now →
      h.Counted s r (.active a) (.goesOn a' h') :=
    fun _ _ _ hadds hes ha' hr hl => ⟨_, hadds, .commits ha hes ha' hr hl⟩
  rw [flushing]
  split
  · exact givesUp _
  · split
    · exact givesUp _
    · split
      · rw [commit]
        split
        · exact commits [] ⟨rfl, rfl, rfl⟩ rfl rfl rfl rfl
        · exact commits [.notice .staleCompletion] ⟨rfl, rfl, rfl⟩ rfl rfl rfl rfl
      · exact givesUp _
      · split
        · exact givesUp _
        · trivial

end Commit

/-! ### Every step -/

/-- **How the step of an accepted run counts.** -/
theorem step_counted (s : Setup) (r : Nat) (a : Active) (h : Host) :
    h.Counted s r (.active a) (h.step s r a) := by
  have releases : ∀ {e : Event} {a' : Active}, a.stage.isCommitting = false →
      e.isUncounted = true → a'.stage.isCommitting = false → a'.stage.phase = a.stage.phase →
      a.CountsAs a' → h.Counted s r (.active a) (.goesOn a' (h.emit r e)) :=
    fun ha he ha' hp hc => counted_keeps [_] ⟨rfl, rfl, rfl⟩ (by simp [he]) ha ha' (.inl hp) hc
  rw [step]
  split
  next ha => exact startingStore_counted ha
  next ha => exact startingConnector_counted ha
  next ha => exact creatingTask_counted ha
  next ha => exact startingTask_counted ha
  next ha => exact resuming_counted ha
  next ha => exact looping_counted ha
  next ha => exact polling_counted ha
  next ha => exact delivering_counted ha
  next ha => exact consulting_counted ha
  next ha => exact flushing_counted ha
  next ha => exact releases (by rw [ha]; rfl) rfl rfl (by rw [ha]; rfl) ⟨rfl, rfl⟩
  next ha => exact releases (by rw [ha]; rfl) rfl rfl (by rw [ha]; rfl) ⟨rfl, rfl⟩
  next ha => exact releases (by rw [ha]; rfl) rfl rfl (by rw [ha]; rfl) ⟨rfl, rfl⟩
  next result ha =>
    have hout : a.stage.phase = .out result := by rw [ha]; rfl
    refine counted_leave [] ⟨rfl, rfl, rfl⟩ rfl ?_ fun _ => ⟨a, rfl, hout⟩
    rintro _ ⟨⟩
    rw [ha]
    rfl

/-- A run that is dropped. -/
theorem dropRun_counted (s : Setup) (r : Nat) (h : Host) (st : RunStatus) :
    h.Counted s r st (h.dropRun r st) := by
  cases st with
  | requested => exact ⟨[], ⟨rfl, rfl, rfl⟩, .ends rfl (by rintro _ ⟨⟩) (by rintro ⟨⟩)⟩
  | active a => exact counted_close [] ⟨rfl, rfl, rfl⟩ rfl (fun _ _ _ => ⟨rfl, rfl⟩) nofun
  | ended outcome => trivial

/-- **Every step of a run counts so**, and then it is written down how far the run is. -/
theorem advance_counts (hadv : h.advance s r = some h') :
    ∃ st es st' h₁, h.status? r = some st ∧ h.Adds r es h₁ ∧ Counts s h st es st' ∧
      h' = h₁.setStatus r st' := by
  obtain ⟨st, st', h₁, hst, ⟨es, hadds, hc⟩, heq⟩ := advance_leads (s := s) (r := r)
    (Q := fun st st' h₁ => ∃ es, h.Adds r es h₁ ∧ Counts s h st es st')
    (fun _ => begin_counted s r h) (fun a _ => step_counted s r a h)
    (fun st _ => dropRun_counted s r h st) hadv
  exact ⟨st, es, st', h₁, hst, hadds, hc, heq⟩

/-! ### Runs as they count -/

/-- Time does not go back. -/
theorem Move.now_le (hm : Move s h h') : h.now ≤ h'.now := by
  cases hm with
  | pass hnow => exact hnow
  | run r hadv =>
    obtain ⟨st, es, st', h₁, -, hadds, -, rfl⟩ := advance_counts hadv
    exact Nat.le_of_eq hadds.now.symm
  | write n =>
    obtain heq | ⟨write, status, es, hw⟩ := turnWrite_cases n h
    · exact Nat.le_of_eq (congrArg Host.now heq).symm
    · exact Nat.le_of_eq hw.adds.now.symm
  | _ => exact Nat.le_refl _

/-- Nothing has happened to a run that has taken no step. -/
theorem Reaches.eventsOf_cases {h₀ : Host} (hf : h₀.Fresh) (hr : Reaches s h₀ h) (r : Nat) :
    eventsOf r h.history = [] ∨ ∃ st, h.status? r = some st ∧ st ≠ .requested := by
  have hall := Reaches.allTraced hf hr
  obtain (hnone | hreq) | hst := status?_cases r h
  · exact .inl (hall.unasked r hnone)
  · exact .inl (List.reverse_eq_nil_iff.mp (hall.traced r _ hreq))
  · exact .inr hst

/-- **What is kept by the steps of a run, by its writes and by time is true of the run** from its
first step on. Its writes take turns only while it waits for one, or after it has ended. -/
theorem Reaches.counted {P : Nat → RunStatus → List Event → Prop} {h₀ : Host} (hf : h₀.Fresh)
    (starts : ∀ {h es st'}, Reaches s h₀ h → Counts s h .requested es st' → P h.now st' es.reverse)
    (waits : ∀ {now now' st es}, now ≤ now' → P now st es → P now' st es)
    (writes : ∀ {now st es es'}, (∀ a, st = .active a → ∃ n, a.stage.standing = .waiting n) →
      (∀ e ∈ es', ∃ n entries, e.IsOfWrite n entries) → P now st es → P now st (es' ++ es))
    (steps : ∀ {h a es st'}, Reaches s h₀ h → h.status? r = some (.active a) →
      Counts s h (.active a) es st' → P h.now (.active a) (eventsOf r h.history) →
      P h.now st' (es.reverse ++ eventsOf r h.history))
    (hr : Reaches s h₀ h) {st : RunStatus} (hst : h.status? r = some st) (hreq : st ≠ .requested) :
    P h.now st (eventsOf r h.history) := by
  induction hr generalizing st with
  | refl =>
    rw [hf.status?] at hst
    cases hst
  | @tail h h' hr hm ih =>
    refine hm.elim (fun hrests => ?_) (fun n write status es hw => ?_)
      fun r' _ _ _ _ hadv _ _ _ _ => ?_
    · have hbefore : h.status? r = some st := by
        obtain heq | ⟨-, heq⟩ := hrests.status r
        · rwa [← heq]
        · rw [heq] at hst
          exact absurd (Option.some.inj hst).symm hreq
      rw [hrests.history]
      exact waits hm.now_le (ih hbefore hreq)
    · rw [hw.status?] at hst
      have hold := waits hm.now_le (ih hst hreq)
      by_cases hrun : write.run = r
      · subst hrun
        rw [hw.adds.eventsOf_self]
        refine writes ?_ (fun e he => ⟨n, write.entries, hw.events e (List.mem_reverse.mp he)⟩) hold
        rintro a rfl
        obtain ⟨b, hb, hwait⟩ | ⟨outcome, hend, -⟩ :=
          (Reaches.orderly hf hr).live n write hw.found hw.live
        · obtain rfl := RunStatus.active.inj (Option.some.inj (hst.symm.trans hb))
          exact ⟨n, hwait⟩
        · cases hst.symm.trans hend
      · rw [hw.adds.eventsOf_of_ne hrun]
        exact hold
    · obtain ⟨st₁, es, st₁', h₁, hst₁, hadds, hcounts, rfl⟩ := advance_counts hadv
      change P h₁.now st (eventsOf r h₁.history)
      rw [hadds.status?_setStatus hst₁] at hst
      rw [hadds.now]
      split at hst
      · rename_i hr'
        subst hr'
        obtain rfl := Option.some.inj hst
        rw [hadds.eventsOf_self]
        cases st₁ with
        | requested =>
          have hnil : eventsOf r' h.history = [] :=
            List.reverse_eq_nil_iff.mp ((Reaches.allTraced hf hr).traced r' _ hst₁)
          rw [hnil, List.append_nil]
          exact starts hr hcounts
        | active a => exact steps hr hst₁ hcounts (ih hst₁ nofun)
        | ended outcome => exact absurd hst₁ (status?_ne_ended hadv outcome)
      · rename_i hr'
        rw [hadds.eventsOf_of_ne hr']
        exact ih hst hreq

end Host

end ChangeCapture
