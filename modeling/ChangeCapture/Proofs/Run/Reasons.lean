import ChangeCapture.Proofs.Run.Draining
import ChangeCapture.Proofs.Run.Single

/-!
# What a run returns

A run whose loop ends without a failure returns that it was interrupted exactly if an interrupt was
raised before its loop was over, or the task itself asked for a forced shutdown; otherwise that it
was stopped. Until the loop is over the flag says whether an interrupt was raised, in whatever order
stops and interrupts come; it only falls as it is taken note of.

## Main definitions

* `Interrupted`: whether an interrupt was raised in time, or the task asked for a shutdown.
* `Reason`: why a run whose loop has begun returns what it returns.
* `RequestsHeeded`: what becomes of requests to stop and to give up.

## Main results

* `Course.reason` — what a run returns.
* `Course.requests_heeded` — the whole of it.
-/

namespace ChangeCapture

/-! ### Interrupts in time -/

/-- Whether a request raised the interrupt for a run whose loop was not over. -/
def Asked.Interrupts (r : Nat) (q : Asked) : Prop :=
  q.control = .interrupt ∧ q.isGranted = true ∧
    ∃ a, q.host.status? r = some (.active a) ∧ a.stage.isOver = false

/-- **Whether a run was interrupted in time**: from outside, by its own consumer, or by its task. -/
def Interrupted (r : Nat) (asked : List Asked) (es : List Event) : Prop :=
  (∃ q ∈ asked, q.Interrupts r) ∨ .controlled .interrupt true ∈ es ∨
    .polled (.fails .interrupted) ∈ es

/-- Whether none of some events interrupts a run. -/
def Calm (es : List Event) : Prop :=
  .controlled .interrupt true ∉ es ∧ .polled (.fails .interrupted) ∉ es

/-- **Why a run whose loop has begun returns what it returns**, given which of its records were
rejected and with which reports. -/
inductive Reason (rejected : Record → Report → Prop) (r : Nat) (asked : List Asked)
    (es : List Event) : RunResult → Prop where
  | pollFailed {e : TaskError} (he : e ≠ .interrupted) (hm : .polled (.fails e) ∈ es) :
      Reason rejected r asked es (.error (.task e))
  | rejected {x : Record} {report : Report} (hx : rejected x report) :
      Reason rejected r asked es (.error (.delivery report))
  | interrupted (hi : Interrupted r asked es) : Reason rejected r asked es (.ok .interrupted)
  | stopped (hi : ¬ Interrupted r asked es) : Reason rejected r asked es (.ok .stopped)

section Interrupted

variable {rejected rejected' : Record → Report → Prop} {r : Nat} {asked asked' : List Asked}
    {es es' : List Event} {result : RunResult}

/-- Events and others interrupt a run if either do. -/
theorem interrupted_append : Interrupted r asked (es' ++ es) ↔
    Interrupted r asked es ∨ .controlled .interrupt true ∈ es' ∨
      .polled (.fails .interrupted) ∈ es' := by
  simp only [Interrupted, List.mem_append]
  grind

/-- Quiet events interrupt no run. -/
theorem calm_quiet (hes : es.all Event.isQuiet = true) : Calm es :=
  ⟨Event.not_mem_of_all hes rfl, Event.not_mem_of_all hes rfl⟩

/-- A run is interrupted by no calm events. -/
theorem interrupted_append_calm (hes : Calm es') :
    Interrupted r asked (es' ++ es) ↔ Interrupted r asked es := by
  simp [interrupted_append, hes.1, hes.2]

/-- A step interrupts no run if its events are calm. -/
theorem interrupted_step (hes : Calm es') :
    Interrupted r asked (es'.reverse ++ es) ↔ Interrupted r asked es :=
  interrupted_append_calm (by simpa [Calm] using hes)

/-- A request interrupts a run in whose loop it is granted. -/
theorem interrupted_cons {c : Control} {h : Host} {a : Active}
    (ha : h.status? r = some (.active a)) : Interrupted r (⟨c, h⟩ :: asked) es ↔
      Interrupted r asked es ∨
        c = .interrupt ∧ h.lifecycle.grants .interrupt = true ∧ a.stage.isOver = false := by
  have hq : Asked.Interrupts r ⟨c, h⟩ ↔
      c = .interrupt ∧ h.lifecycle.grants .interrupt = true ∧ a.stage.isOver = false := by
    simp only [Asked.Interrupts, Asked.isGranted_eq, ha]
    constructor
    · rintro ⟨rfl, hg, a', ha', ho⟩
      cases ha'
      exact ⟨rfl, hg, ho⟩
    · rintro ⟨rfl, hg, ho⟩
      exact ⟨rfl, hg, a, rfl, ho⟩
  simp only [Interrupted, List.mem_cons, exists_eq_or_imp, hq]
  grind

/-- Requests to other runs interrupt no run. -/
theorem not_interrupts (hno : ∀ q ∈ asked', q.host.isActive r = false) :
    ¬ ∃ q ∈ asked', q.Interrupts r := by
  rintro ⟨q, hq, -, -, a, ha, -⟩
  have hact := Host.isActive_iff.mpr ⟨a, ha⟩
  rw [hno q hq] at hact
  cases hact

/-- A run is interrupted by no request to other runs. -/
theorem interrupted_append_asked (hno : ∀ q ∈ asked', q.host.isActive r = false) :
    Interrupted r (asked' ++ asked) es ↔ Interrupted r asked es := by
  simp only [Interrupted, List.mem_append, or_and_right, exists_or, not_interrupts hno, false_or]

/-- What a run may return stays the same if nothing interrupts it any more. -/
theorem Reason.imp (ho : Reason rejected r asked es result)
    (hi : Interrupted r asked' es' ↔ Interrupted r asked es) (hsub : es ⊆ es') :
    Reason rejected r asked' es' result := by
  cases ho with
  | pollFailed he hm => exact .pollFailed he (hsub hm)
  | rejected hx => exact .rejected hx
  | interrupted h => exact .interrupted (hi.mpr h)
  | stopped h => exact .stopped (hi.not.mpr h)

/-- Only the report that a run returns matters for which record was rejected. -/
theorem Reason.of_report (ho : Reason rejected r asked es result)
    (hreport : ∀ report, result = .error (.delivery report) → ∃ x, rejected' x report) :
    Reason rejected' r asked es result := by
  cases ho with
  | pollFailed he hm => exact .pollFailed he hm
  | rejected =>
    obtain ⟨x, hx⟩ := hreport _ rfl
    exact .rejected hx
  | interrupted h => exact .interrupted h
  | stopped h => exact .stopped h

end Interrupted

/-! ### The flag and the reason -/

/-- **The flag says whether a run was interrupted**, until its loop is over; and what it then
returns says so. Which record was rejected is left open. -/
def Phase.Accounts (r : Nat) (asked : List Asked) (es : List Event) (l : Lifecycle) : Phase → Prop
  | .startUp => (l.interrupted = true ↔ Interrupted r asked es) ∧ .loopBegun ∉ es
  | .loop => l.interrupted = true ↔ Interrupted r asked es
  | .final => Interrupted r asked es
  | .out result => .loopBegun ∈ es → Reason (fun _ _ => True) r asked es result

/-- The same for a run. -/
def RunStatus.Accounts (r : Nat) (asked : List Asked) (es : List Event) (l : Lifecycle) :
    RunStatus → Prop
  | .active a => a.stage.phase.Accounts r asked es l
  | .ended (.returned result) => .loopBegun ∈ es → Reason (fun _ _ => True) r asked es result
  | .requested | .ended _ => True

section Accounts

variable {rejected : Record → Report → Prop} {r : Nat} {asked : List Asked} {es es' : List Event}
    {l : Lifecycle}

/-- Quiet events change nothing in what a run may return. -/
theorem Reason.append_quiet {result : RunResult} (hes : es'.all Event.isQuiet = true)
    (ho : .loopBegun ∈ es → Reason rejected r asked es result) :
    .loopBegun ∈ es' ++ es → Reason rejected r asked (es' ++ es) result := by
  intro hm
  have hbegun := (List.mem_append.mp hm).resolve_left (Event.not_mem_of_all hes rfl)
  exact (ho hbegun).imp (interrupted_append_calm (calm_quiet hes)) (List.subset_append_right _ _)

/-- Quiet events keep the account. -/
theorem Phase.Accounts.append_quiet {p : Phase} (hes : es'.all Event.isQuiet = true)
    (hp : p.Accounts r asked es l) : p.Accounts r asked (es' ++ es) l := by
  have hbegun : .loopBegun ∉ es' := Event.not_mem_of_all hes rfl
  have hsame : Interrupted r asked (es' ++ es) ↔ Interrupted r asked es :=
    interrupted_append_calm (calm_quiet hes)
  cases p with
  | startUp =>
    obtain ⟨hflag, hno⟩ := hp
    exact ⟨hflag.trans hsame.symm, by simp [hbegun, hno]⟩
  | loop => exact Iff.trans hp hsame.symm
  | final => exact hsame.mpr hp
  | out result => exact Reason.append_quiet hes hp

/-- A request keeps the account. -/
theorem Phase.Accounts.heed {h : Host} {a : Active} (c : Control)
    (ha : h.status? r = some (.active a))
    (hp : a.stage.phase.Accounts r asked es h.lifecycle) :
    a.stage.phase.Accounts r (⟨c, h⟩ :: asked) es (h.lifecycle.heed c) := by
  have hcons : Interrupted r (⟨c, h⟩ :: asked) es ↔ _ := interrupted_cons ha
  rw [Stage.isOver] at hcons
  generalize a.stage.phase = p at hcons hp ⊢
  have flag : (h.lifecycle.interrupted = true ↔ Interrupted r asked es) → p.isOver = false →
      ((h.lifecycle.heed c).interrupted = true ↔ Interrupted r (⟨c, h⟩ :: asked) es) := by
    intro hflag hover
    rw [Lifecycle.interrupted_heed, hflag, hcons]
    simp [hover]
  cases p with
  | startUp => exact ⟨flag hp.1 rfl, hp.2⟩
  | loop => exact flag hp rfl
  | final => exact hcons.mpr (.inl hp)
  | out result =>
    intro hm
    exact (hp hm).imp (hcons.trans (by simp [isOver])) (List.Subset.refl es)

end Accounts

namespace Host

variable {s : Setup} {r : Nat} {h : Host} {a : Active} {asked : List Asked}
    {es es₀ : List Event} {st' : RunStatus} {l' : Lifecycle}

/-- A run that is accepted was not interrupted. -/
theorem Flow.accounts_begin (hf : Flow s h .requested es st' l')
    (hcalm : h.lifecycle.isTaken = false → h.lifecycle.interrupted = false)
    (hno : ∀ q ∈ asked, q.host.isActive r = false) : st'.Accounts r asked es.reverse l' := by
  cases hf with
  | passes => exact nofun
  | drops => trivial
  | @enters l es a' hl hes ha' =>
    have hbegun : .loopBegun ∉ es := Event.not_mem_of_all hes rfl
    obtain ⟨hcontrolled, hpolled⟩ := calm_quiet hes
    rw [RunStatus.Accounts, ha']
    refine ⟨?_, by simp [hbegun]⟩
    rw [Lifecycle.start?_eq hl, hcalm (isTaken_start? hl).1]
    simp only [Interrupted, not_interrupts hno]
    simp [hcontrolled, hpolled]
  | @turnsBack l es outcome hl hes ho =>
    have hbegun : .loopBegun ∉ es := Event.not_mem_of_all hes rfl
    cases outcome with
    | returned result =>
      intro hm
      simp [hbegun] at hm
    | panicked | aborted => trivial

/-- **A step keeps the account.** -/
theorem Flow.accounts (hf : Flow s h (.active a) es st' l')
    (hp : a.stage.phase.Accounts r asked es₀ h.lifecycle) :
    st'.Accounts r asked (es.reverse ++ es₀) l' := by
  have unbegun : ∀ {es : List Event} {result}, es.all Event.isQuiet = true → .loopBegun ∉ es₀ →
      .loopBegun ∈ es.reverse ++ es₀ →
      Reason (fun _ _ => True) r asked (es.reverse ++ es₀) result := by
    intro es result hes hno hm
    have hno' : .loopBegun ∉ es := Event.not_mem_of_all hes rfl
    simp [hno, hno'] at hm
  have quiet : ∀ {es : List Event}, es.all Event.isQuiet = true →
      es.reverse.all Event.isQuiet = true := fun hes => by rwa [List.all_reverse]
  cases hf with
  | @prepares _ a' es ha hes ha' =>
    rw [ha] at hp
    rcases ha' with ha' | ⟨e, ha'⟩ <;> rw [RunStatus.Accounts, ha']
    · exact Phase.Accounts.append_quiet (quiet hes) hp
    · exact unbegun hes hp.2
  | @begins _ a' es ha hes ha' =>
    rw [ha] at hp
    obtain ⟨hcontrolled, hpolled⟩ := calm_quiet hes
    rw [RunStatus.Accounts, ha']
    exact hp.1.trans (interrupted_step ⟨by simp [hcontrolled], by simp [hpolled]⟩).symm
  | polls ha _ ha' | receives ha ha' | delivers ha ha' =>
    rw [ha] at hp
    rw [RunStatus.Accounts, ha']
    exact Iff.trans hp (interrupted_step (by simp [Calm])).symm
  | stops ha hi ha' =>
    rw [ha] at hp
    rw [RunStatus.Accounts, ha']
    refine fun _ => .stopped fun hint => ?_
    have hflag := hp.mpr hint
    rw [hi] at hflag
    cases hflag
  | heeds ha hi ha' =>
    rw [RunStatus.Accounts, ha']
    refine interrupted_append.mpr (.inl ?_)
    rcases ha with ha | ha <;> rw [ha] at hp <;> exact hp.mp hi
  | idles ha hresult ha' =>
    rw [ha] at hp
    rw [RunStatus.Accounts, ha']
    refine Iff.trans hp (interrupted_step ?_).symm
    rcases hresult with rfl | rfl <;> simp [Calm]
  | reports _ _ ha' =>
    rw [RunStatus.Accounts, ha']
    exact interrupted_append.mpr (.inr (.inr (by simp)))
  | fails _ he ha' =>
    rw [RunStatus.Accounts, ha']
    exact fun _ => .pollFailed he (by simp)
  | hands cs ha ha' =>
    rw [ha] at hp
    rw [RunStatus.Accounts, ha']
    refine (Lifecycle.interrupted_heedAll cs h.lifecycle).trans ?_
    rw [interrupted_append]
    refine or_congr hp ?_
    simp [Lifecycle.not_mem_replies]
  | @rejects _ _ x _ _ _ cs _ _ ha' =>
    rw [RunStatus.Accounts, ha']
    exact fun _ => .rejected (x := x) trivial
  | @consults _ a' es es' records elapsed fired final ha hes hes' ha' =>
    rw [ha] at hp
    have hstep : Interrupted r asked
        ((es ++ .consulted records elapsed fired :: es').reverse ++ es₀) ↔
          Interrupted r asked es₀ := by
      obtain ⟨hcontrolled, hpolled⟩ := calm_quiet hes
      obtain ⟨hcontrolled', hpolled'⟩ := calm_quiet hes'
      exact interrupted_step
        ⟨by simp [hcontrolled, hcontrolled'], by simp [hpolled, hpolled']⟩
    cases final with
    | false =>
      rcases ha' with ha' | ⟨number, deadline, ha'⟩ <;> rw [RunStatus.Accounts, ha']
      · exact Iff.trans hp hstep.symm
      · exact Iff.trans hp hstep.symm
    | true =>
      rcases ha' with ha' | ⟨number, deadline, ha'⟩ <;> rw [RunStatus.Accounts, ha']
      · exact fun _ => .interrupted (hstep.mpr hp)
      · exact hstep.mpr hp
  | @flushes _ a' es number deadline final ha hes ha' =>
    rw [ha] at hp
    rw [RunStatus.Accounts, ha']
    cases final with
    | false => exact Phase.Accounts.append_quiet (quiet hes) hp
    | true => exact fun _ => .interrupted ((interrupted_step (calm_quiet hes)).mpr hp)
  | releases ha hes ha' =>
    rw [ha] at hp
    rw [RunStatus.Accounts, ha']
    exact Phase.Accounts.append_quiet (quiet hes) hp
  | @ends _ es outcome _ _ ho =>
    cases outcome with
    | returned result =>
      obtain ⟨hes, ha | ⟨ha, -⟩⟩ := ho result rfl
      · rw [ha] at hp
        exact Reason.append_quiet (quiet hes) hp
      · rw [ha] at hp
        exact unbegun hes hp.2
    | panicked | aborted => trivial

/-! ### Nothing to wait for -/

/-- A run that hands over records waits for nothing. -/
theorem absorb_delivering (rest batch : List Record) :
    ∃ h', absorb r (h.delivering s r a rest batch) = some h' := by
  cases rest with
  | nil => exact ⟨_, rfl⟩
  | cons x rest =>
    rw [delivering]
    split <;> exact ⟨_, rfl⟩

/-- A run that consults the policy waits for nothing: a flush only begins. -/
theorem absorb_consulting (final : Bool) :
    ∃ h', absorb r (h.consulting s r a final) = some h' := by
  rw [consulting]
  split
  · rw [flush]
    split
    · exact ⟨_, rfl⟩
    · exact ⟨_, rfl⟩
    · rw [submit]
      split <;> exact ⟨_, rfl⟩
  · exact ⟨_, rfl⟩

/-- A run looks at what its poll gave. -/
theorem absorb_receive (result : Polled) {e : Event} (hm : e ∈ eventsOf r h.history) :
    ∃ h', absorb r (h.receive r a result) = some h' ∧ e ∈ eventsOf r h'.history := by
  have hnothing : h.Adds r [] h := ⟨rfl, rfl, rfl⟩
  cases result with
  | nothing => exact ⟨_, rfl, hm⟩
  | batch records =>
    cases records with
    | nil | cons => exact ⟨_, rfl, hm⟩
  | fails error =>
    cases error with
    | interrupted => exact ⟨_, rfl, (hnothing.emit .interruptCleared).mem_eventsOf hm⟩
    | noTaskConfig | offset | failed => exact ⟨_, rfl, hm⟩
  | panics => exact ⟨_, rfl, (hnothing.emit (.ended .panicked)).mem_eventsOf hm⟩

/-- **What a poll gives is taken**, unless an interrupt was raised or the run is dropped. -/
theorem advance_of_polling {result : Polled} {feed : List Polled}
    (hrun : h.runs[r]? = some { status := .active a }) (ha : a.stage = .polling)
    (hi : h.lifecycle.interrupted = false) (hfeed : h.feed = result :: feed) :
    ∃ h', h.advance s r = some h' ∧ .polled result ∈ eventsOf r h'.history := by
  rw [advance, hrun]
  change ∃ h', absorb r (h.step s r a) = some h' ∧ _
  rw [step, ha]
  simp only [polling, hi, hfeed]
  exact absorb_receive result (mem_eventsOf.mpr ⟨h.now, List.mem_cons_self⟩)

/-- **A run that delivers a batch, or consults the policy, can always take a step.** -/
theorem advance_of_delivering (hst : h.status? r = some (.active a))
    (ha : (∃ rest batch, a.stage = .delivering rest batch) ∨
      ∃ final, a.stage = .consulting final) : ∃ h', h.advance s r = some h' := by
  have hstep : ∃ h', absorb r (h.step s r a) = some h' := by
    rcases ha with ⟨rest, batch, ha⟩ | ⟨final, ha⟩ <;> rw [step, ha]
    · exact absorb_delivering rest batch
    · exact absorb_consulting final
  rw [status?, Option.map_eq_some_iff] at hst
  obtain ⟨run, hrun, hstatus⟩ := hst
  rw [advance, hrun]
  dsimp only
  rw [hstatus]
  split
  · exact ⟨_, rfl⟩
  · exact hstep

end Host

/-! ### Requests -/

/-- **What becomes of requests**, in a host and all that it was asked since it was built. -/
structure RequestsHeeded (s : Setup) (h₀ : Host) (asked : List Asked) (h : Host) : Prop where
  /-- No poll is entered after a request from outside that was granted to a run. -/
  noPollSince : ∀ r, ∀ q ∈ asked, q.isGranted = true → q.host.isActive r = true →
    ∃ newer, eventsOf r h.history = newer ++ eventsOf r q.host.history ∧ .poll ∉ newer
  /-- Nor after one that was granted to its own consumer. -/
  noPollAfter : ∀ r c newer older, eventsOf r h.history = newer ++ .controlled c true :: older →
    .poll ∉ newer
  /-- What a poll gives is taken, if no interrupt was raised. -/
  takes : ∀ r a result feed, h.runs[r]? = some { status := .active a } → a.stage = .polling →
    h.lifecycle.interrupted = false → h.feed = result :: feed →
    ∃ h', h.advance s r = some h' ∧ .polled result ∈ eventsOf r h'.history
  /-- If a run waits for a poll when it is asked to stop, and the poll gives records, then a run
  that returns has drained them. -/
  drains : ∀ r, ∀ q ∈ asked, q.control = .stop → q.isGranted = true →
    ∀ a, q.host.status? r = some (.active a) → a.stage = .polling →
    ∀ newer, eventsOf r h.history = newer ++ eventsOf r q.host.history →
    ∀ x xs, .polled (.batch (x :: xs)) ∈ newer →
    ∀ result, h.status? r = some (.ended (.returned result)) →
    Drained (h.Rejected s h₀.deliveries r) (x :: xs) result (milestones newer)
  /-- Nothing keeps a run from draining them. -/
  goesOn : ∀ r a, h.status? r = some (.active a) →
    (∃ rest batch, a.stage = .delivering rest batch) ∨ (∃ final, a.stage = .consulting final) →
    ∃ h', h.advance s r = some h'
  /-- What a run returns whose loop has begun. -/
  reason : ∀ r result, h.status? r = some (.ended (.returned result)) →
    .loopBegun ∈ eventsOf r h.history →
    Reason (h.Rejected s h₀.deliveries r) r asked (eventsOf r h.history) result

namespace Course

open Host

variable {s : Setup} {h₀ h : Host} {asked : List Asked} {r : Nat}

/-- **What a run returns whose loop has begun**: a failed poll, a rejected record, or else whether
it was interrupted in time. -/
theorem reason (hf : h₀.Fresh) (hc : Course s h₀ asked h) {result : RunResult}
    (hst : h.status? r = some (.ended (.returned result)))
    (hbegun : .loopBegun ∈ eventsOf r h.history) :
    Reason (h.Rejected s h₀.deliveries r) r asked (eventsOf r h.history) result := by
  have haccounts : (RunStatus.ended (.returned result)).Accounts r asked (eventsOf r h.history)
      h.lifecycle := by
    refine hc.life (P := fun asked st es l => st.Accounts r asked es l) hf
      ?_ ?_ ?_ ?_ ?_ hst nofun
    · intro asked h es st' l' hc hno hflow
      exact hflow.accounts_begin (hc.coherent hf).calm hno
    · intro asked st es l es' hes ih
      cases st with
      | requested => trivial
      | active a => exact Phase.Accounts.append_quiet hes ih
      | ended outcome =>
        cases outcome with
        | returned result => exact Reason.append_quiet hes ih
        | panicked | aborted => trivial
    · exact fun c ha ih => Phase.Accounts.heed c ha ih
    · exact fun _ _ hflow ih => hflow.accounts ih
    · intro asked outcome es l l' newer hno ih
      cases outcome with
      | returned result =>
        exact fun hm => (ih hm).imp (interrupted_append_asked hno) (List.Subset.refl es)
      | panicked | aborted => trivial
  refine (haccounts hbegun).of_report ?_
  rintro report rfl
  exact Reaches.rejected hf hc.reaches hst rfl

/-- **Requests are never lost, and cut no batch short.** Whatever happens to a host, a run that was
granted a stop or an interrupt enters no further poll; the batch of a poll that was pending as it
was asked to stop is taken and delivered record by record, and the policy consulted about it, unless
a record is rejected; and if neither a poll nor the delivery fails, a run returns that it was
interrupted exactly if an interrupt was raised before its loop was over, or its task asked for a
shutdown, and otherwise that it was stopped. -/
theorem requests_heeded (hf : h₀.Fresh) (hc : Course s h₀ asked h) :
    RequestsHeeded s h₀ asked h where
  noPollSince _ _ hq hgranted hact := hc.no_poll_since hf hq hgranted hact
  noPollAfter _ _ _ _ heq := hc.no_poll_after hf heq
  takes _ _ _ _ hrun ha hi hfeed := advance_of_polling hrun ha hi hfeed
  drains _ _ hq _ hgranted _ ha hpoll _ heq _ _ hm _ hst :=
    hc.drained_since hf hq hgranted ha hpoll heq hm hst
  goesOn _ _ hst ha := advance_of_delivering hst ha
  reason _ _ hst hbegun := hc.reason hf hst hbegun

/-- A run that waits for a poll is asked to stop, and then the poll gives a batch: the batch is
drained, and the run returns that it was stopped. -/
theorem requests_heeded_while_polling :
    let s : Setup :=
      { config := { name := "engine", connectorClass := "source", flushTimeout := 5000
                    keyConverter := .json, valueConverter := .json, properties := [] }
        registry := Registry.empty.register "source" {}
        policy := .const false
        consumer := fun _ => {} }
    let x : Record :=
      { partition := [("shard", .number (.integer 1))], offset := [("row", .number (.integer 7))]
        topic := "rows", key := none, value := .null, timestamp := none }
    let h₁ : Host := Host.request {} |>.runOn s 0 12
    let h := ((h₁.ask .stop).2.provide (.batch [x])).runOn s 0 12
    ∃ newer, eventsOf 0 h.history = newer ++ eventsOf 0 h₁.history ∧
      Drained (h.Rejected s 0 0) [x] (.ok .stopped) (milestones newer) := by
  intro s x h₁ h
  have hf : Fresh {} := ⟨rfl, rfl, rfl, rfl⟩
  have hstart : Course s {} [] (Host.request {}) := Course.start.move .request (.inl rfl)
  have hc : Course s {} [⟨.stop, h₁⟩] h :=
    (((hstart.runOn 0 12).ask .stop).move (.provide (.batch [x])) (.inl rfl)).runOn 0 12
  have hheeded := requests_heeded hf hc
  have hst : h.status? 0 = some (.ended (.returned (.ok .stopped))) := rfl
  have hbefore : .batch [x] ∉ (eventsOf 0 h₁.history).filterMap Event.polled? := by decide +kernel
  have hafter : .batch [x] ∈ (eventsOf 0 h.history).filterMap Event.polled? := by decide +kernel
  rw [mem_filterMap_polled?] at hbefore hafter
  obtain ⟨a, ha, hpoll⟩ : ∃ a, h₁.status? 0 = some (.active a) ∧ a.stage = .polling :=
    ⟨_, rfl, rfl⟩
  obtain ⟨newer, heq, -⟩ := hheeded.noPollSince 0 ⟨.stop, h₁⟩ List.mem_cons_self rfl rfl
  have hpolled : .polled (.batch [x]) ∈ newer := by
    rw [heq, List.mem_append] at hafter
    exact hafter.resolve_right hbefore
  exact ⟨newer, heq, hheeded.drains 0 ⟨.stop, h₁⟩ List.mem_cons_self rfl rfl a ha hpoll newer heq
    x [] hpolled (.ok .stopped) hst⟩

end Course

end ChangeCapture
