import ChangeCapture.Proofs.Run.Halting
import ChangeCapture.Proofs.Run.Prefix

/-!
# Draining

A run that is asked to stop while it waits for a poll drains the batch that the poll gives: the
batch is delivered record by record, and the policy is consulted once about it. Only a rejected
record cuts it short. An empty batch is no data, as is none.

## Main definitions

* `milestones`: how far a batch has come.
* `Drained`: what a run does with its last batch, and what it returns then.
* `Stage.Drains`: the same, as far as it has come at a stage.

## Main results

* `Flow.drains` — a run that polls no more goes on draining.
* `Course.rejected_of_last` — the record of the last milestone was rejected with what a run returns.
* `Course.drained_since` — the batch of a pending poll is drained.
-/

namespace ChangeCapture

/-! ### Milestones -/

/-- Whether an event tells how far a batch has come. -/
def Event.isMilestone : Event → Bool
  | .poll | .polled _ | .deliver _ | .taken _ | .delivered _ | .consulted _ _ _
  | .interruptCleared => true
  | _ => false

/-- How far batches have come, from the events of a run, the newest first. The milestones stand in
their order. -/
def milestones (es : List Event) : List Event :=
  es.reverse.filter Event.isMilestone

/-- The milestones of a step after others. -/
theorem milestones_append (es es₀ : List Event) :
    milestones (es.reverse ++ es₀) = milestones es₀ ++ es.filter Event.isMilestone := by
  simp [milestones]

/-- Quiet events are no milestones. -/
theorem filter_isMilestone_quiet {es : List Event} (hes : es.all Event.isQuiet = true) :
    es.filter Event.isMilestone = [] := by
  refine List.filter_eq_nil_iff.mpr fun e he => ?_
  have hquiet := List.all_eq_true.mp hes e he
  cases e <;> first | exact Bool.false_ne_true | cases hquiet

/-- The last milestone is the newest one. -/
theorem getLast?_milestones (es : List Event) :
    (milestones es).getLast? = (es.filter Event.isMilestone).head? := by
  rw [milestones, List.filter_reverse, List.getLast?_reverse]

/-- Who parts comes to no milestone. -/
theorem filter_isMilestone_parting {es : List Event} (hes : es.all Event.isParting = true) :
    es.filter Event.isMilestone = [] := by
  refine List.filter_eq_nil_iff.mpr fun e he => ?_
  have hparting := List.all_eq_true.mp hes e he
  cases e <;> first | exact Bool.false_ne_true | cases hparting

/-- What a consumer asks for is no milestone. -/
theorem filter_isMilestone_replies (cs : List Control) (l : Lifecycle) :
    (l.replies cs).filter Event.isMilestone = [] := by
  induction cs generalizing l with
  | nil => rfl
  | cons c cs ih => exact ih (l.heed c)

/-- What a poll gave. -/
def Event.polled? : Event → Option Polled
  | .polled result => some result
  | _ => none

/-- What polls gave is told by their events. -/
theorem mem_filterMap_polled? {result : Polled} {es : List Event} :
    result ∈ es.filterMap Event.polled? ↔ .polled result ∈ es := by
  rw [List.mem_filterMap]
  constructor
  · rintro ⟨e, he, hresult⟩
    cases e with
    | polled result' =>
      obtain rfl := Option.some.inj hresult
      exact he
    | _ => cases hresult
  · exact fun he => ⟨_, he, rfl⟩

/-! ### Drained batches -/

/-- Records that the consumer accepts, one after the other. -/
def handing (records : List Record) : List Event :=
  records.flatMap fun x => [.deliver x, .taken x]

/-- One more record is accepted. -/
theorem handing_concat (records : List Record) (x : Record) :
    handing (records ++ [x]) = handing records ++ [.deliver x, .taken x] := by
  simp [handing]

/-- A batch that a poll gives, and whose every record the consumer accepts. -/
def serving (batch : List Record) : List Event :=
  .polled (.batch batch) :: (handing batch ++ [.delivered batch])

/-- **What a run does with its last batch**, and what it returns then, given which of its records
were rejected and with which reports. It delivers the batch and consults the policy; if it is
interrupted meanwhile, it consults the policy a last time. Only a rejected record cuts the batch
short. -/
inductive Drained (rejected : Record → Report → Prop) (batch : List Record) :
    RunResult → List Event → Prop where
  | stopped (records elapsed : Nat) (fired : Bool) :
      Drained rejected batch (.ok .stopped) (serving batch ++ [.consulted records elapsed fired])
  | interrupted (records elapsed : Nat) (fired : Bool) (records' elapsed' : Nat) (fired' : Bool) :
      Drained rejected batch (.ok .interrupted)
        (serving batch ++ [.consulted records elapsed fired] ++ [.interruptCleared] ++
          [.consulted records' elapsed' fired'])
  | rejected {accepted left : List Record} {x : Record} {report : Report}
      (hbatch : batch = accepted ++ x :: left) (hx : rejected x report) :
      Drained rejected batch (.error (.delivery report))
        (.polled (.batch batch) :: handing accepted ++ [.deliver x])

/-- Whether no poll gave a batch of records. -/
def Spared (ms : List Event) : Prop :=
  ∀ x xs, .polled (.batch (x :: xs)) ∉ ms

/-- No record is a result of a poll. -/
theorem polled_not_mem_handing (result : Polled) (records : List Record) :
    .polled result ∉ handing records := by
  simp [handing]

section Drained

variable {rejected rejected' : Record → Report → Prop} {batch batch' : List Record}
  {result : RunResult} {ms : List Event}

/-- Only one poll gave a batch that is drained. -/
theorem Drained.batch_eq (hd : Drained rejected batch result ms)
    (hm : .polled (.batch batch') ∈ ms) : batch' = batch := by
  cases hd <;> simpa [serving, polled_not_mem_handing] using hm

/-- Only the record of the last milestone matters for what cut a batch short. -/
theorem Drained.of_last (hd : Drained rejected batch result ms)
    (hlast : ∀ x report, result = .error (.delivery report) →
      ms.getLast? = some (.deliver x) → rejected' x report) : Drained rejected' batch result ms := by
  cases hd with
  | stopped => exact .stopped ..
  | interrupted => exact .interrupted ..
  | rejected hbatch => exact .rejected hbatch (hlast _ _ rfl List.getLast?_concat)

end Drained

/-! ### Draining -/

/-- **What a run that polls no more has done with its last batch**, as far as it has come. Which
record was rejected is left open. -/
def Stage.Drains (ms : List Event) : Stage → Prop
  | .polling => ms = []
  | .delivering rest batch =>
    ∃ accepted, batch = accepted ++ rest ∧ ms = .polled (.batch batch) :: handing accepted
  | .consulting false => ∃ batch, ms = serving batch
  | .looping | .flushing _ _ false =>
    Spared ms ∨ ∃ batch records elapsed fired,
      ms = serving batch ++ [.consulted records elapsed fired]
  | .consulting true =>
    Spared ms ∨ ∃ batch records elapsed fired,
      ms = serving batch ++ [.consulted records elapsed fired] ++ [.interruptCleared]
  | .flushing _ _ true =>
    Spared ms ∨ ∃ batch, Drained (fun _ _ => True) batch (.ok .interrupted) ms
  | .stoppingTask result | .stoppingConnector result | .stoppingStore result | .leaving result =>
    Spared ms ∨ ∃ batch, Drained (fun _ _ => True) batch result ms
  | .startingStore _ | .startingConnector | .creatingTask | .startingTask _ | .resuming _ _ => False

/-- The same for a run. One that breaks off may leave its batch anywhere. -/
def RunStatus.Drains (ms : List Event) : RunStatus → Prop
  | .active a => a.stage.Drains ms
  | .ended (.returned result) => Spared ms ∨ ∃ batch, Drained (fun _ _ => True) batch result ms
  | .requested | .ended _ => True

namespace Stage

variable {ms : List Event} {stage : Stage}

/-- A run that has not come to its loop drains nothing. -/
theorem not_drains (hp : stage.phase = .startUp) : ¬ stage.Drains ms := by
  cases stage with
  | consulting final | flushing _ _ final => cases final <;> cases hp
  | startingStore | startingConnector | creatingTask | startingTask | resuming => exact id
  | _ => cases hp

/-- A run on its way out is done with its last batch. -/
theorem drains_iff {result : RunResult} (hp : stage.phase = .out result) :
    stage.Drains ms ↔ Spared ms ∨ ∃ batch, Drained (fun _ _ => True) batch result ms := by
  cases stage with
  | consulting final | flushing _ _ final => cases final <;> cases hp
  | stoppingTask | stoppingConnector | stoppingStore | leaving =>
    cases hp
    exact Iff.rfl
  | _ => cases hp

end Stage

namespace Host

variable {s : Setup} {h : Host} {a : Active} {es ms : List Event} {st' : RunStatus}
    {l' : Lifecycle}

/-- **A run that polls no more goes on draining.** -/
theorem Flow.drains (hf : Flow s h (.active a) es st' l')
    (hh : (RunStatus.active a).Halts h.lifecycle) (hd : a.stage.Drains ms) :
    st'.Drains (ms ++ es.filter Event.isMilestone) := by
  have spared : ∀ {ms es : List Event}, Spared ms → Spared es → Spared (ms ++ es) := by
    intro ms es hms hes x xs hm
    rcases List.mem_append.mp hm with hm | hm
    · exact hms x xs hm
    · exact hes x xs hm
  cases hf with
  | prepares ha | begins ha => exact absurd hd (Stage.not_drains ha)
  | polls ha hgoes =>
    rw [RunStatus.Halts, ha] at hh
    exact absurd (hgoes.symm.trans hh) Bool.false_ne_true
  | stops ha _ ha' =>
    rw [ha] at hd
    rw [RunStatus.Drains, ha', List.filter_nil, List.append_nil]
    rcases hd with hd | ⟨batch, records, elapsed, fired, rfl⟩
    · exact .inl hd
    · exact .inr ⟨batch, .stopped records elapsed fired⟩
  | heeds ha _ ha' =>
    rw [RunStatus.Drains, ha']
    have hcleared : Spared ([Event.interruptCleared].filter Event.isMilestone) := by
      simp [Spared, Event.isMilestone]
    rcases ha with ha | ha
    · rw [ha] at hd
      rcases hd with hd | ⟨batch, records, elapsed, fired, rfl⟩
      · exact .inl (spared hd hcleared)
      · exact .inr ⟨batch, records, elapsed, fired, rfl⟩
    · rw [ha] at hd
      obtain rfl : ms = [] := hd
      exact .inl hcleared
  | idles ha hresult ha' =>
    rw [ha] at hd
    obtain rfl : ms = [] := hd
    rw [RunStatus.Drains, ha']
    refine .inl ?_
    rcases hresult with rfl | rfl <;> simp [Spared, Event.isMilestone]
  | receives ha ha' =>
    rw [ha] at hd
    obtain rfl : ms = [] := hd
    rw [RunStatus.Drains, ha']
    exact ⟨[], rfl, rfl⟩
  | reports ha _ ha' | fails ha _ ha' =>
    rw [ha] at hd
    obtain rfl : ms = [] := hd
    rw [RunStatus.Drains, ha']
    exact .inl (by simp [Spared, Event.isMilestone])
  | @hands _ a' x rest batch cs ha ha' =>
    rw [ha] at hd
    obtain ⟨accepted, rfl, rfl⟩ := hd
    rw [RunStatus.Drains, ha']
    refine ⟨accepted ++ [x], by simp, ?_⟩
    simp [List.filter_cons, filter_isMilestone_replies, Event.isMilestone, handing_concat]
  | @rejects _ a' x rest batch report cs ha hv ha' =>
    rw [ha] at hd
    obtain ⟨accepted, rfl, rfl⟩ := hd
    rw [RunStatus.Drains, ha']
    refine .inr ⟨accepted ++ x :: rest, ?_⟩
    have heq : (.deliver x :: h.lifecycle.replies cs).filter Event.isMilestone = [.deliver x] := by
      simp [List.filter_cons, filter_isMilestone_replies, Event.isMilestone]
    rw [heq]
    exact .rejected rfl trivial
  | delivers ha ha' =>
    rw [ha] at hd
    obtain ⟨accepted, rfl, rfl⟩ := hd
    rw [RunStatus.Drains, ha']
    exact ⟨accepted ++ [], by simp [serving, Event.isMilestone]⟩
  | @consults _ a' es es' records elapsed fired final ha hes hes' ha' =>
    rw [ha] at hd
    have heq : (es ++ .consulted records elapsed fired :: es').filter Event.isMilestone =
        [.consulted records elapsed fired] := by
      simp [List.filter_cons, filter_isMilestone_quiet hes, filter_isMilestone_quiet hes',
        Event.isMilestone]
    rw [heq]
    cases final with
    | false =>
      obtain ⟨batch, rfl⟩ := hd
      rcases ha' with ha' | ⟨number, deadline, ha'⟩ <;> rw [RunStatus.Drains, ha']
      · exact .inr ⟨batch, records, elapsed, fired, rfl⟩
      · exact .inr ⟨batch, records, elapsed, fired, rfl⟩
    | true =>
      have hlast : Spared (ms ++ [.consulted records elapsed fired]) ∨ ∃ batch,
          Drained (fun _ _ => True) batch (.ok .interrupted)
            (ms ++ [.consulted records elapsed fired]) := by
        rcases hd with hd | ⟨batch, records₀, elapsed₀, fired₀, rfl⟩
        · exact .inl (spared hd (by simp [Spared]))
        · exact .inr ⟨batch, .interrupted records₀ elapsed₀ fired₀ records elapsed fired⟩
      rcases ha' with ha' | ⟨number, deadline, ha'⟩ <;> rw [RunStatus.Drains, ha']
      · exact hlast
      · exact hlast
  | @flushes _ a' es number deadline final ha hes ha' =>
    rw [ha] at hd
    rw [RunStatus.Drains, ha', filter_isMilestone_quiet hes, List.append_nil]
    cases final with
    | false => exact hd
    | true => exact hd
  | releases ha hes ha' =>
    rw [RunStatus.Drains, Stage.drains_iff ha', filter_isMilestone_quiet hes, List.append_nil]
    exact (Stage.drains_iff ha).mp hd
  | @ends _ es outcome _ _ ho =>
    cases outcome with
    | returned result =>
      obtain ⟨hes, ha | ⟨ha, -⟩⟩ := ho result rfl
      · rw [RunStatus.Drains, filter_isMilestone_quiet hes, List.append_nil]
        exact (Stage.drains_iff ha).mp hd
      · exact absurd hd (Stage.not_drains ha)
    | panicked | aborted => trivial

end Host

namespace Course

open Host

variable {s : Setup} {h₀ h : Host} {asked : List Asked} {r : Nat}

/-- If a run returns the report of a record and its last milestone is that it handed a record over,
then this record was rejected with the report. -/
theorem rejected_of_last (hf : h₀.Fresh) (hc : Course s h₀ asked h) {newer older : List Event}
    (heq : eventsOf r h.history = newer ++ older) {x : Record} {report : Report}
    (hst : h.status? r = some (.ended (.returned (.error (.delivery report)))))
    (hlast : (milestones newer).getLast? = some (.deliver x)) :
    h.Rejected s h₀.deliveries r x report := by
  obtain ⟨x', later, t, earlier, hhistory, hv⟩ := Reaches.rejected hf hc.reaches hst rfl
  have hcut := Reaches.cut_short hf hc.reaches hhistory (by rw [hv]; nofun)
  obtain rfl : x = x' := by
    -- The newest milestone of the run, seen in both ways.
    rw [getLast?_milestones, List.head?_eq_some_iff] at hlast
    obtain ⟨rest, hlast⟩ := hlast
    have hsame : (eventsOf r h.history).filter Event.isMilestone =
        .deliver x :: (rest ++ older.filter Event.isMilestone) := by
      rw [heq, List.filter_append, hlast, List.cons_append]
    rw [hhistory, eventsOf_append, eventsOf_cons_self, List.filter_append,
      filter_isMilestone_parting hcut.parting] at hsame
    exact (Event.deliver.inj (List.cons.inj hsame).1).symm
  exact ⟨later, t, earlier, hhistory, hv⟩

/-- **The batch of a pending poll is drained.** If a run waits for a poll when it is granted a
request, and the poll gives records, then a run that returns has drained them. -/
theorem drained_since (hf : h₀.Fresh) (hc : Course s h₀ asked h) {q : Asked} (hq : q ∈ asked)
    (hgranted : q.isGranted = true) {a : Active} (ha : q.host.status? r = some (.active a))
    (hpoll : a.stage = .polling) {newer : List Event}
    (heq : eventsOf r h.history = newer ++ eventsOf r q.host.history) {x : Record}
    {xs : List Record} (hm : .polled (.batch (x :: xs)) ∈ newer) {result : RunResult}
    (hst : h.status? r = some (.ended (.returned result))) :
    Drained (h.Rejected s h₀.deliveries r) (x :: xs) result (milestones newer) := by
  have hsince := hc.since
    (S := fun q => ∃ a, q.host.status? r = some (.active a) ∧ a.stage = .polling)
    (Q := fun st es l => st.Halts l ∧ st.Drains (milestones es)) hf ?_ ?_ ?_ ?_ ?_ hq
    ⟨a, ha, hpoll⟩ hgranted (isActive_iff.mpr ⟨a, ha⟩)
  · obtain ⟨st, newer', hst', heq', -, hd⟩ := hsince
    obtain rfl := List.append_cancel_right (heq.symm.trans heq')
    obtain rfl := Option.some.inj (hst'.symm.trans hst)
    have hmem : .polled (.batch (x :: xs)) ∈ milestones newer :=
      List.mem_filter.mpr ⟨List.mem_reverse.mpr hm, rfl⟩
    rcases hd with hno | ⟨batch, hd⟩
    · exact absurd hmem (hno x xs)
    · rw [hd.batch_eq hmem]
      refine hd.of_last fun x report hresult hlast => ?_
      exact hc.rejected_of_last hf heq (hresult ▸ hst) hlast
  · rintro q a ⟨a', ha', hpoll⟩ hgranted ha
    obtain rfl := RunStatus.active.inj (Option.some.inj (ha'.symm.trans ha))
    rw [Asked.isGranted_eq] at hgranted
    refine ⟨Phase.halts_of_isHalting (Lifecycle.isHalting_of_grants hgranted) _, ?_⟩
    rw [RunStatus.Drains, hpoll]
    rfl
  · intro st es l es' hes ⟨hhalts, hd⟩
    have hmilestones : milestones (es' ++ es) = milestones es := by
      rw [← List.reverse_reverse es', milestones_append,
        filter_isMilestone_quiet (by simpa using hes), List.append_nil]
    exact ⟨hhalts, hmilestones ▸ hd⟩
  · intro a es l c ⟨hhalts, hd⟩
    exact ⟨Phase.Halts.heed hhalts c, hd⟩
  · intro h a es st' es' l' hflow ⟨hhalts, hd⟩
    rw [milestones_append]
    exact ⟨(hflow.halts hhalts).2, hflow.drains hhalts hd⟩
  · exact fun ⟨_, hd⟩ => ⟨trivial, hd⟩

end Course

end ChangeCapture
