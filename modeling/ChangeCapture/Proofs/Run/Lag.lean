import ChangeCapture.Proofs.Run.Meters

/-!
# What the delivery counters leave out

The counters of records and of batches are raised once for a batch, when all its records have been
accepted. While a batch is handed over they lag behind: the batch was polled, and some of its
records may have been accepted already. If all are accepted the counters catch up. If the consumer
rejects one the run ends there, and then neither the batch nor the records of it that were accepted
are ever counted.

## Main definitions

* `acceptedRecords`, `filledPolls`: what the consumer accepted, and what the polls of a run gave.
* `Lags`, `RunStatus.Lags`: how far the counters are behind, wherever a run stands.

## Main results

* `Host.Flow.lags` — one step keeps the counters as far behind as they should be.
* `Host.Reaches.counts_deliveries` — what the counters have grown by, and what they leave out.
-/

namespace ChangeCapture

/-! ### What happened -/

/-- Whether the consumer accepted a record. -/
def Event.isAcceptance : Event → Bool
  | .taken _ => true
  | _ => false

/-- Whether a poll gave records. -/
def Event.isFilledPoll : Event → Bool
  | .polled (.batch (_ :: _)) => true
  | _ => false

/-- How many records the consumer accepted. -/
def acceptedRecords (es : List Event) : Nat :=
  es.countP Event.isAcceptance

/-- How many polls gave records. -/
def filledPolls (es : List Event) : Nat :=
  es.countP Event.isFilledPoll

/-- Whether an event tells of no batch and of no record that was accepted. -/
def Event.isBatchless : Event → Bool
  | .taken _ | .polled (.batch (_ :: _)) | .delivered _ => false
  | _ => true

/-- Quiet events tell of no batch. -/
theorem Event.isBatchless_quiet {es : List Event} (h : es.all Event.isQuiet = true) :
    es.all Event.isBatchless = true := by
  refine List.all_eq_true.mpr fun e he => ?_
  have hquiet := List.all_eq_true.mp h e he
  cases e <;> first | rfl | cases hquiet

/-- The turns of writes tell of no batch. -/
theorem Event.isBatchless_write {n : Nat} {entries : Entries} {es : List Event}
    (h : ∀ e ∈ es, e.IsOfWrite n entries) : es.all Event.isBatchless = true := by
  refine List.all_eq_true.mpr fun e he => ?_
  obtain rfl | ⟨_, rfl⟩ | rfl := h e he <;> rfl

/-- What a consumer asks for tells of no batch. -/
theorem Event.isBatchless_replies (cs : List Control) (l : Lifecycle) :
    (l.replies cs).all Event.isBatchless = true := by
  induction cs generalizing l with
  | nil => rfl
  | cons c cs ih => exact ih _

/-! ### The lag -/

/-- **How far the counters are behind** what happened in a run: by so many batches, and by so many
records. -/
structure Lags (es : List Event) (batches records : Nat) : Prop where
  batches : filledPolls es = addedTo .batchesPolled es + batches
  records : acceptedRecords es = addedTo .recordsDelivered es + records

namespace Lags

variable {es es' : List Event} {n k : Nat}

/-- Nothing has happened. -/
theorem nil : Lags [] 0 0 :=
  ⟨rfl, rfl⟩

/-- One more event: what it tells of a batch, and what it adds to the counters. -/
theorem cons {n' k' : Nat} (h : Lags es n k) (e : Event)
    (hb : n + (if e.isFilledPoll then 1 else 0) = e.adds .batchesPolled + n')
    (hr : k + (if e.isAcceptance then 1 else 0) = e.adds .recordsDelivered + k') :
    Lags (e :: es) n' k' where
  batches := by
    have hold := h.batches
    simp only [filledPolls, List.countP_cons, addedTo] at hold ⊢
    omega
  records := by
    have hold := h.records
    simp only [acceptedRecords, List.countP_cons, addedTo] at hold ⊢
    omega

/-- Events that tell of no batch leave the counters as far behind. -/
theorem batchless (h : Lags es n k) (hes : es'.all Event.isBatchless = true) :
    Lags (es'.reverse ++ es) n k := by
  induction es' generalizing es with
  | nil => exact h
  | cons e es' ih =>
    rw [List.all_cons, Bool.and_eq_true] at hes
    rw [List.reverse_cons, List.append_assoc]
    refine ih (h.cons e ?_ ?_) hes.2
    · rw [Nat.add_comm]
      cases e with
      | polled result =>
        cases result with
        | batch records => cases records <;> first | rfl | cases hes.1
        | _ => rfl
      | delivered => cases hes.1
      | _ => rfl
    · rw [Nat.add_comm]
      cases e <;> first | rfl | cases hes.1

/-- A poll gives records. -/
theorem poll (h : Lags es 0 0) (x : Record) (xs : List Record) :
    Lags (.polled (.batch (x :: xs)) :: es) 1 0 :=
  h.cons _ rfl rfl

/-- A record is accepted. -/
theorem accept (h : Lags es n k) (x : Record) : Lags (.taken x :: es) n (k + 1) :=
  h.cons _ (Nat.zero_add n).symm (Nat.zero_add (k + 1)).symm

/-- The counters catch up with a batch. -/
theorem deliver {batch : List Record} (h : Lags es 1 batch.length) :
    Lags (.delivered batch :: es) 0 0 :=
  h.cons _ rfl rfl

end Lags

/-- **How far a batch was accepted**: it was given by a poll, and the consumer accepted all its
records but the rest. The counters are behind by that. -/
def AcceptedTo (es : List Event) (batch rest : List Record) : Prop :=
  ∃ accepted, batch = accepted ++ rest ∧ .polled (.batch batch) ∈ es ∧ Lags es 1 accepted.length

/-- A batch stays accepted as far while nothing tells of it. -/
theorem AcceptedTo.batchless {es es' : List Event} {batch rest : List Record}
    (h : AcceptedTo es batch rest) (hes : es'.all Event.isBatchless = true) :
    AcceptedTo (es'.reverse ++ es) batch rest := by
  obtain ⟨accepted, hbatch, hm, hlags⟩ := h
  exact ⟨accepted, hbatch, List.mem_append_right _ hm, hlags.batchless hes⟩

/-- How far the counters are behind in a run that returns a result: by a batch that the consumer cut
short, if it rejected a record. -/
def LagsWith (es : List Event) : RunResult → Prop
  | .error (.delivery _) => ∃ batch x rest, AcceptedTo es batch (x :: rest)
  | _ => Lags es 0 0

/-- How far the counters are behind in a run at a stage: by the batch that it hands over, as far as
it has come. -/
def Stage.Lags (es : List Event) : Stage → Prop
  | .delivering rest batch => AcceptedTo es batch rest
  | .stoppingTask result | .stoppingConnector result | .stoppingStore result | .leaving result =>
    LagsWith es result
  | _ => ChangeCapture.Lags es 0 0

/-- **How far the counters of a run are behind**, wherever it stands. A run that breaks off may
leave them behind anywhere. -/
def RunStatus.Lags (es : List Event) : RunStatus → Prop
  | .requested => ChangeCapture.Lags es 0 0
  | .active a => a.stage.Lags es
  | .ended (.returned result) => LagsWith es result
  | .ended _ => True

section Stages

variable {es es' : List Event} {result : RunResult} {stage : Stage}

/-- A run that returns no report of the consumer leaves the counters even. -/
theorem lagsWith_iff (h : ∀ report, result ≠ .error (.delivery report)) :
    LagsWith es result ↔ Lags es 0 0 := by
  cases result with
  | ok exit => exact Iff.rfl
  | error e => cases e <;> first | exact Iff.rfl | exact absurd rfl (h _)

/-- What a run leaves out stays so while nothing tells of a batch. -/
theorem LagsWith.batchless (h : LagsWith es result) (hes : es'.all Event.isBatchless = true) :
    LagsWith (es'.reverse ++ es) result := by
  by_cases hcut : ∃ report, result = .error (.delivery report)
  · obtain ⟨report, rfl⟩ := hcut
    obtain ⟨batch, x, rest, hto⟩ := h
    exact ⟨batch, x, rest, hto.batchless hes⟩
  · have hno : ∀ report, result ≠ .error (.delivery report) := fun report heq => hcut ⟨report, heq⟩
    exact (lagsWith_iff hno).mpr (((lagsWith_iff hno).mp h).batchless hes)

/-- A run is not on its way out before its loop. -/
theorem Stage.result?_startUp (hp : stage.phase = .startUp) : stage.result? = none := by
  cases stage <;> first | rfl | cases hp

/-- Before its loop a run leaves the counters even. -/
theorem Stage.lags_startUp (hp : stage.phase = .startUp) :
    stage.Lags es ↔ ChangeCapture.Lags es 0 0 := by
  cases stage with
  | consulting final | flushing _ _ final => cases final <;> cases hp
  | startingStore | startingConnector | creatingTask | startingTask | resuming => exact Iff.rfl
  | _ => cases hp

/-- On its way out a run will return its result, and it leaves the counters as it will then. -/
theorem Stage.lags_out (hp : stage.phase = .out result) :
    stage.result? = some result ∧ (stage.Lags es ↔ LagsWith es result) := by
  cases stage with
  | consulting final | flushing _ _ final => cases final <;> cases hp
  | stoppingTask | stoppingConnector | stoppingStore | leaving =>
    cases hp
    exact ⟨rfl, Iff.rfl⟩
  | _ => cases hp

/-- What the counters of a run leave out stays so while nothing tells of a batch. -/
theorem RunStatus.Lags.batchless {st : RunStatus} (h : st.Lags es)
    (hes : es'.all Event.isBatchless = true) :
    st.Lags (es'.reverse ++ es) := by
  have even : ChangeCapture.Lags es 0 0 → ChangeCapture.Lags (es'.reverse ++ es) 0 0 :=
    fun h => h.batchless hes
  cases st with
  | requested => exact even h
  | active a =>
    rw [RunStatus.Lags] at h ⊢
    cases ha : a.stage <;> rw [ha] at h
    case delivering => exact AcceptedTo.batchless h hes
    case stoppingTask | stoppingConnector | stoppingStore | leaving =>
      exact LagsWith.batchless h hes
    all_goals exact even h
  | ended outcome =>
    cases outcome with
    | returned result => exact LagsWith.batchless h hes
    | panicked | aborted => trivial

end Stages

namespace Host

variable {s : Setup} {r : Nat} {h h' h₀ h₁ : Host} {a : Active} {es es₀ : List Event}
    {st st' : RunStatus} {l' : Lifecycle}

/-- After a commit, or after none, a run leaves the counters even. -/
theorem lags_afterCommit {final : Bool} (h : Lags es 0 0) :
    (afterCommit a final).stage.Lags es := by
  cases final <;> exact h

/-! ### One step -/

/-- The first step of a run leaves the counters even. -/
theorem Flow.lags_first (hf : Flow s h .requested es st' l')
    (hmet : ∀ report, st'.result? ≠ some (.error (.delivery report))) : st'.Lags es.reverse := by
  have settled : ∀ {es : List Event}, es.all Event.isQuiet = true →
      Lags (Event.accepted :: es).reverse 0 0 := by
    intro es hes
    have hbatchless : (Event.accepted :: es).all Event.isBatchless = true := by
      rw [List.all_cons, Event.isBatchless_quiet hes]
      rfl
    have hlags := Lags.nil.batchless hbatchless
    rwa [List.append_nil] at hlags
  cases hf with
  | passes => exact Lags.nil
  | drops => trivial
  | enters _ hes ha' => exact (Stage.lags_startUp ha').mpr (settled hes)
  | @turnsBack _ _ outcome _ hes =>
    cases outcome with
    | returned result =>
      exact (lagsWith_iff fun report heq => hmet report (congrArg some heq)).mpr (settled hes)
    | panicked | aborted => trivial

/-- **One step keeps the counters as far behind as they should be**, unless the consumer is said to
have rejected a record before the loop. -/
theorem Flow.lags (hf : Flow s h (.active a) es st' l') (hl : a.stage.Lags es₀)
    (hmet : a.stage.phase = .startUp → ∀ report, st'.result? ≠ some (.error (.delivery report))) :
    st'.Lags (es.reverse ++ es₀) := by
  have rests : ∀ {stage : Stage} {es : List Event}, a.stage = stage →
      (stage.Lags es₀ ↔ Lags es₀ 0 0) → es.all Event.isBatchless = true →
        Lags (es.reverse ++ es₀) 0 0 := by
    intro stage es ha hiff hes
    rw [ha] at hl
    exact (hiff.mp hl).batchless hes
  cases hf with
  | prepares ha hes ha' =>
    have hquiet := ((Stage.lags_startUp ha).mp hl).batchless (Event.isBatchless_quiet hes)
    rcases ha' with ha' | ⟨e, ha'⟩
    · exact (Stage.lags_startUp ha').mpr hquiet
    · obtain ⟨hresult, hiff⟩ := Stage.lags_out ha'
      refine hiff.mpr ((lagsWith_iff fun report heq => hmet ha report ?_).mpr hquiet)
      exact hresult.trans (congrArg some heq)
  | begins ha hes ha' =>
    rw [RunStatus.Lags, ha', List.reverse_append, List.append_assoc]
    have hbegun : [Event.loopBegun].all Event.isBatchless = true := rfl
    exact (((Stage.lags_startUp ha).mp hl).batchless (Event.isBatchless_quiet hes)).batchless hbegun
  | polls ha _ ha' | stops ha _ ha' =>
    rw [RunStatus.Lags, ha']
    exact rests ha Iff.rfl rfl
  | heeds ha _ ha' =>
    rw [RunStatus.Lags, ha']
    rcases ha with ha | ha <;> exact rests ha Iff.rfl rfl
  | idles ha hresult ha' =>
    rw [RunStatus.Lags, ha']
    rcases hresult with rfl | rfl <;> exact rests ha Iff.rfl rfl
  | @receives _ a' x xs ha ha' =>
    rw [RunStatus.Lags, ha']
    rw [ha] at hl
    exact ⟨[], rfl, List.mem_cons_self, Lags.poll hl x xs⟩
  | reports ha _ ha' =>
    rw [RunStatus.Lags, ha']
    exact rests ha Iff.rfl rfl
  | fails ha he ha' =>
    rw [RunStatus.Lags, ha']
    refine rests ha Iff.rfl ?_
    rfl
  | @hands _ a' x rest batch cs ha ha' =>
    rw [RunStatus.Lags, ha']
    rw [ha] at hl
    obtain ⟨accepted, rfl, hm, hlags⟩ := hl
    have hbatchless : (Event.deliver x :: h.lifecycle.replies cs).all Event.isBatchless = true := by
      rw [List.all_cons, Event.isBatchless_replies]
      rfl
    refine ⟨accepted ++ [x], by simp, List.mem_append_right _ hm, ?_⟩
    have htaken := (hlags.batchless hbatchless).accept x
    rw [List.length_append]
    simpa using htaken
  | @rejects _ a' x rest batch report cs ha hv ha' =>
    rw [RunStatus.Lags, ha']
    rw [ha] at hl
    exact ⟨batch, x, rest, AcceptedTo.batchless hl (Event.isBatchless_replies cs _)⟩
  | delivers ha ha' =>
    rw [RunStatus.Lags, ha']
    rw [ha] at hl
    obtain ⟨accepted, rfl, hm, hlags⟩ := hl
    rw [List.append_nil]
    exact hlags.deliver
  | @consults _ a' es es' records elapsed fired final ha hes hes' ha' =>
    have hbatchless : (es ++ .consulted records elapsed fired :: es').all Event.isBatchless = true := by
      rw [List.all_append, List.all_cons, Event.isBatchless_quiet hes, Event.isBatchless_quiet hes']
      rfl
    have hlags := rests ha Iff.rfl hbatchless
    rcases ha' with ha' | ⟨number, deadline, ha'⟩ <;> rw [RunStatus.Lags, ha']
    · exact lags_afterCommit hlags
    · exact hlags
  | flushes ha hes ha' =>
    rw [RunStatus.Lags, ha']
    exact lags_afterCommit (rests ha Iff.rfl (Event.isBatchless_quiet hes))
  | releases ha hes ha' =>
    exact (Stage.lags_out ha').2.mpr
      (((Stage.lags_out ha).2.mp hl).batchless (Event.isBatchless_quiet hes))
  | @ends _ _ outcome _ _ ho =>
    cases outcome with
    | panicked | aborted => trivial
    | returned result =>
      obtain ⟨hes, hp | ⟨hp, -⟩⟩ := ho result rfl
      · exact LagsWith.batchless ((Stage.lags_out hp).2.mp hl) (Event.isBatchless_quiet hes)
      · refine (lagsWith_iff fun report heq => hmet hp report (congrArg some heq)).mpr ?_
        exact ((Stage.lags_startUp hp).mp hl).batchless (Event.isBatchless_quiet hes)

/-! ### Every host -/

/-- A run returns no report of the consumer before its loop. -/
theorem Act.not_delivery (hact : h.Act s r st es st' h₁)
    (hst : st = .requested ∨ ∃ a, st = .active a ∧ a.stage.phase = .startUp) (report : Report) :
    st'.result? ≠ some (.error (.delivery report)) := by
  intro hres
  rcases hst with rfl | ⟨a, rfl, hp⟩
  · rcases (result?_calls hact.calls).2 hres with hres | hfails
    · cases hres
    · cases hfails
  · rcases (result?_calls hact.calls).2 hres with hres | hfails
    · cases (Stage.result?_startUp hp).symm.trans hres
    · cases hfails with
      | delivery ha =>
        rw [ha] at hp
        cases hp

/-- **Wherever a run stands, the counters are behind by what it hands over, or has cut short.** -/
theorem Reaches.lags (hf : h₀.Fresh) (hr : Reaches s h₀ h) (hst : h.status? r = some st) :
    st.Lags (eventsOf r h.history) := by
  induction hr generalizing st with
  | refl =>
    rw [hf.status?] at hst
    cases hst
  | @tail h h' hr hm ih =>
    have nothing : ∀ {r}, h.status? r = none ∨ h.status? r = some .requested →
        eventsOf r h.history = [] := fun hbefore => by
      have hall := Reaches.allTraced hf hr
      rcases hbefore with hbefore | hbefore
      · exact hall.unasked _ hbefore
      · exact List.reverse_eq_nil_iff.mp (hall.traced _ _ hbefore)
    refine hm.elim (fun hrests => ?_) (fun n w status es hw => ?_)
      fun r' st₁ es₁ st₁' h₁ hadv hst₁ _ hact heq => ?_
    · rw [hrests.history]
      obtain heq | ⟨hnone, heq⟩ := hrests.status r
      · exact ih (heq ▸ hst)
      · rw [nothing (.inl hnone)]
        obtain rfl := Option.some.inj (heq.symm.trans hst)
        exact Lags.nil
    · have hold := ih ((hw.status? r).symm.trans hst)
      by_cases hrun : w.run = r
      · subst hrun
        rw [hw.adds.eventsOf_self]
        exact hold.batchless (Event.isBatchless_write hw.events)
      · rwa [hw.adds.eventsOf_of_ne hrun]
    · obtain ⟨st₂, es₂, st₂', h₂, hst₂, hadds, hflow, heq₂⟩ := advance_flows hadv
      obtain rfl := Option.some.inj (hst₁.symm.trans hst₂)
      have hend := hact.status? hst₁ r
      rw [heq₂, hadds.status?_setStatus hst₂] at hst
      rw [← heq, heq₂, hadds.status?_setStatus hst₂] at hend
      subst heq₂
      change st.Lags (eventsOf r h₂.history)
      by_cases hrun : r' = r
      · subst hrun
        rw [if_pos rfl] at hst
        rw [if_pos rfl, if_pos rfl] at hend
        obtain rfl := Option.some.inj hst
        obtain rfl := Option.some.inj hend
        rw [hadds.eventsOf_self]
        cases st₁ with
        | requested =>
          rw [nothing (.inr hst₁), List.append_nil]
          exact hflow.lags_first (hact.not_delivery (.inl rfl))
        | active a => exact hflow.lags (ih hst₁) fun hp => hact.not_delivery (.inr ⟨a, rfl, hp⟩)
        | ended outcome => exact absurd hst₁ (status?_ne_ended hadv outcome)
      · rw [if_neg hrun] at hst
        rw [hadds.eventsOf_of_ne hrun]
        exact ih hst

/-! ### What the counters leave out -/

/-- **A run that is over adds nothing more** to the counters. -/
theorem Reaches.addedTo_of_ended {outcome : RunEnd} (hst : h.status? r = some (.ended outcome))
    (hr : Reaches s h h') (c : Counter) :
    addedTo c (eventsOf r h'.history) = addedTo c (eventsOf r h.history) ∧
      h'.status? r = some (.ended outcome) := by
  induction hr with
  | refl => exact ⟨rfl, hst⟩
  | @tail h₁ h₂ hr hm ih =>
    obtain ⟨hadded, hst₁⟩ := ih
    refine hm.elim (fun hrests => ?_) (fun n w status es hw => ?_)
      fun r' st es st' h₃ hadv hst₂ _ hact heq => ?_
    · exact ⟨hrests.history ▸ hadded, hrests.status?_eq hst₁⟩
    · refine ⟨?_, (hw.status? r).trans hst₁⟩
      by_cases hrun : w.run = r
      · subst hrun
        rw [hw.adds.eventsOf_self, addedTo_reverse_append,
          addedTo_unmetered (Event.isUnmetered_write hw.events), Nat.zero_add, hadded]
      · rwa [hw.adds.eventsOf_of_ne hrun]
    · have hne : r' ≠ r := by
        rintro rfl
        exact status?_ne_ended hadv outcome hst₁
      subst heq
      refine ⟨?_, by rw [hact.status? hst₂, if_neg hne, hst₁]⟩
      change addedTo c (eventsOf r h₃.history) = _
      rw [hact.adds.eventsOf_of_ne hne, hadded]

/-- **What the delivery counters count.** They have grown by what the runs add to them, and a run
that is over adds nothing more. A run that returns, and whose consumer rejected no record, has added
exactly the records that the consumer accepted in it, and exactly the polls that gave records. If
the consumer rejected a record, the run has left out the batch of that record, and the records of
the batch that were accepted before. -/
theorem Reaches.counts_deliveries (hf : h₀.Fresh) (hr : Reaches s h₀ h) {m₀ : Metrics}
    (hm : h₀.metrics = some m₀) :
    (∃ m, h.metrics = some m ∧
      Grew m₀.recordsDelivered (h.total (addedTo .recordsDelivered)) m.recordsDelivered ∧
      Grew m₀.batchesPolled (h.total (addedTo .batchesPolled)) m.batchesPolled) ∧
    ∀ r result, h.status? r = some (.ended (.returned result)) →
      (∀ h' c, Reaches s h h' →
        addedTo c (eventsOf r h'.history) = addedTo c (eventsOf r h.history)) ∧
      ((∀ report, result ≠ .error (.delivery report)) →
        addedTo .recordsDelivered (eventsOf r h.history) =
          acceptedRecords (eventsOf r h.history) ∧
        addedTo .batchesPolled (eventsOf r h.history) = filledPolls (eventsOf r h.history)) ∧
      ∀ report, result = .error (.delivery report) → ∃ accepted x left,
        .polled (.batch (accepted ++ x :: left)) ∈ eventsOf r h.history ∧
        addedTo .recordsDelivered (eventsOf r h.history) + accepted.length =
          acceptedRecords (eventsOf r h.history) ∧
        addedTo .batchesPolled (eventsOf r h.history) + 1 =
          filledPolls (eventsOf r h.history) := by
  obtain ⟨m, hmetrics, -, hgrew⟩ := Reaches.counters hf hr hm
  refine ⟨⟨m, hmetrics, hgrew .recordsDelivered, hgrew .batchesPolled⟩, fun r result hst =>
    ⟨fun h' c hr' => (Reaches.addedTo_of_ended hst hr' c).1, fun hno => ?_, ?_⟩⟩
  · obtain ⟨hbatches, hrecords⟩ := (lagsWith_iff hno).mp (Reaches.lags hf hr hst)
    exact ⟨hrecords.symm, hbatches.symm⟩
  · rintro report rfl
    obtain ⟨_, x, left, accepted, rfl, hm, hbatches, hrecords⟩ := Reaches.lags hf hr hst
    exact ⟨accepted, x, left, hm, hrecords.symm, hbatches.symm⟩

/-- A batch of one record is delivered, and of a second batch the second record is rejected. -/
theorem counts_deliveries_until_rejected :
    let s : Setup :=
      { config := { name := "engine", connectorClass := "source", flushTimeout := 5000
                    keyConverter := .json, valueConverter := .json, properties := [] }
        registry := Registry.empty.register "source" {}
        policy := .every 100
        consumer := fun n => if n = 2 then { verdict := .rejects { shown := "full" } } else {} }
    let x (row : Nat) : Record :=
      { partition := [("shard", .number (.integer 1))]
        offset := [("row", .number (.integer row))]
        topic := "rows", key := none, value := .null, timestamp := none }
    let h₀ : Host := { feed := [.batch [x 1], .batch [x 2, x 3]] }
    let h := h₀.request.runOn s 0 40
    h.status? 0 = some (.ended (.returned (.error (.delivery { shown := "full" })))) ∧
      acceptedRecords (eventsOf 0 h.history) = 2 ∧ filledPolls (eventsOf 0 h.history) = 2 ∧
      ∃ m accepted, h.metrics = some m ∧
        Grew 0 (h.total (addedTo .recordsDelivered)) m.recordsDelivered ∧
        addedTo .recordsDelivered (eventsOf 0 h.history) + accepted = 2 ∧
        addedTo .batchesPolled (eventsOf 0 h.history) + 1 = 2 := by
  intro s x h₀ h
  have hf : h₀.Fresh := ⟨rfl, rfl, rfl, rfl⟩
  have hr : Reaches s h₀ h := Reaches.runOn (.tail .refl .request) 0 40
  have hst : h.status? 0 = some (.ended (.returned (.error (.delivery { shown := "full" })))) := rfl
  have haccepted : acceptedRecords (eventsOf 0 h.history) = 2 := by decide +kernel
  have hpolled : filledPolls (eventsOf 0 h.history) = 2 := by decide +kernel
  obtain ⟨⟨m, hm, hrecords, -⟩, hruns⟩ := Reaches.counts_deliveries hf hr rfl
  obtain ⟨-, -, hcut⟩ := hruns 0 _ hst
  obtain ⟨accepted, y, left, -, hleft, hbatches⟩ := hcut _ rfl
  exact ⟨hst, haccepted, hpolled, m, accepted.length, hm, hrecords, hleft.trans haccepted,
    hbatches.trans hpolled⟩

/-- **The delivery counters do not count what happened where the consumer rejects a record.** A run
polls one batch of three records, its consumer accepts the first and rejects the second, and the run
returns the report of that. -/
theorem not_counts_accepted :
    ¬ ∀ (s : Setup) (h₀ h : Host) (m : Metrics), h₀.Fresh → Reaches s h₀ h →
      h₀.metrics = some {} → h.metrics = some m →
      (∀ st ∈ h.runs.map Run.status, ∃ result, st = .ended (.returned result)) →
      Grew 0 (h.total acceptedRecords) m.recordsDelivered ∧
        Grew 0 (h.total filledPolls) m.batchesPolled := by
  intro hall
  let s : Setup :=
    { config := { name := "engine", connectorClass := "source", flushTimeout := 5000
                  keyConverter := .json, valueConverter := .json, properties := [] }
      registry := Registry.empty.register "source" {}
      consumer := fun n => if n = 1 then { verdict := .rejects { shown := "full" } } else {} }
  let x (row : Nat) : Record :=
    { partition := [("shard", .number (.integer 1))]
      offset := [("row", .number (.integer row))]
      topic := "rows", key := none, value := .null, timestamp := none }
  let h₀ : Host := { feed := [.batch [x 1, x 2, x 3]] }
  let h := h₀.request.runOn s 0 25
  have hr : Reaches s h₀ h := Reaches.runOn (.tail .refl .request) 0 25
  have hruns : h.runs.map Run.status =
    [.ended (.returned (.error (.delivery { shown := "full" })))] := rfl
  have haccepted : h.total acceptedRecords = 1 := by decide +kernel
  have hshown : h.metrics.map (·.recordsDelivered) = some 0 := by decide +kernel
  obtain ⟨m, hm, hzero⟩ := Option.map_eq_some_iff.mp hshown
  obtain ⟨hgrew, -⟩ := hall s h₀ h m ⟨rfl, rfl, rfl, rfl⟩ hr rfl hm (by
    rw [hruns]
    simp)
  have hone := hgrew.exact (by rw [haccepted]; decide)
  rw [hzero, haccepted] at hone
  cases hone

end Host

end ChangeCapture
