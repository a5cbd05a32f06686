import ChangeCapture.Proofs.Run.Draining
import ChangeCapture.Proofs.Run.Settling
import ChangeCapture.Proofs.Run.Tally

/-!
# The rounds of a loop

A run goes through its loop in rounds. In each it polls; if the poll gives records it delivers them
and consults the policy once, and if it gives none the round is over. The last round is cut off: the
run was asked to stop or is interrupted, the task fails, or a record is rejected. Only an interrupted
run consults the policy then, and it does so once.

So the policy is consulted once for each batch that is delivered and once for an interrupt, and at no
other time. What it is consulted with is told by the history.

## Main definitions

* `Round`: a full round.
* `Interruption`, `Leaving`: how a loop is left.
* `Stage.Beats`, `RunStatus.Beats`: full rounds, and how far the last one is.

## Main results

* `Host.Flow.beats` — one step goes on with a round, or comes to its end.
* `Host.ReachesUnbroken.beats` — the milestones of a run are its rounds.
* `Host.Reaches.consults_exactly` — when the policy is consulted, and with what.
-/

namespace ChangeCapture

/-! ### Rounds -/

/-- **A full round of a loop**: a poll gives no data, or it gives records that are all delivered, and
then the policy is consulted. -/
inductive Round : List Event → Prop where
  | idle {result : Polled} (hresult : result = .nothing ∨ result = .batch []) :
      Round [.poll, .polled result]
  | served {batch : List Record} (hbatch : batch ≠ []) (records elapsed : Nat) (fired : Bool) :
      Round (.poll :: serving batch ++ [.consulted records elapsed fired])

/-- **How a run comes to be interrupted**: at the top of its loop, while it polls, or because its
task says so. -/
inductive Interruption : List Event → Prop where
  | raised : Interruption [.interruptCleared]
  | polling : Interruption [.poll, .interruptCleared]
  | reported : Interruption [.poll, .polled (.fails .interrupted), .interruptCleared]

/-- **How a loop is left** with a result, given which records were rejected and with which reports.
Only an interrupted run consults the policy then. -/
inductive Leaving (rejected : Record → Report → Prop) : RunResult → List Event → Prop where
  | stopped : Leaving rejected (.ok .stopped) []
  | interrupted {cue : List Event} (hcue : Interruption cue) (records elapsed : Nat)
      (fired : Bool) :
      Leaving rejected (.ok .interrupted) (cue ++ [.consulted records elapsed fired])
  | failed {e : TaskError} (he : e ≠ .interrupted) :
      Leaving rejected (.error (.task e)) [.poll, .polled (.fails e)]
  | rejected {accepted left : List Record} {x : Record} {report : Report}
      (hx : rejected x report) :
      Leaving rejected (.error (.delivery report))
        (.poll :: .polled (.batch (accepted ++ x :: left)) :: handing accepted ++ [.deliver x])

/-- **Full rounds, and what came after them.** -/
def InRounds (Q : List Event → Prop) (ms : List Event) : Prop :=
  ∃ (rounds : List (List Event)) (last : List Event),
    ms = rounds.flatten ++ last ∧ (∀ round ∈ rounds, Round round) ∧ Q last

namespace InRounds

variable {Q Q' : List Event → Prop} {ms es : List Event}

/-- Before the first round. -/
theorem start (hq : Q []) : InRounds Q [] :=
  ⟨[], [], rfl, fun _ hm => absurd hm List.not_mem_nil, hq⟩

/-- The last round goes on. -/
theorem goesOn (h : InRounds Q ms) (hq : ∀ last, Q last → Q' (last ++ es)) :
    InRounds Q' (ms ++ es) := by
  obtain ⟨rounds, last, rfl, hrounds, hlast⟩ := h
  exact ⟨rounds, last ++ es, List.append_assoc .., hrounds, hq last hlast⟩

/-- The last round stays as it is. -/
theorem stays (h : InRounds Q ms) (hq : ∀ last, Q last → Q' last) : InRounds Q' ms := by
  obtain ⟨rounds, last, rfl, hrounds, hlast⟩ := h
  exact ⟨rounds, last, rfl, hrounds, hq last hlast⟩

/-- The last round comes to its end. -/
theorem ends (h : InRounds Q ms) (hround : ∀ last, Q last → Round (last ++ es)) (hq : Q' []) :
    InRounds Q' (ms ++ es) := by
  obtain ⟨rounds, last, rfl, hrounds, hlast⟩ := h
  refine ⟨rounds ++ [last ++ es], [], by simp, fun round hm => ?_, hq⟩
  rcases List.mem_append.mp hm with hm | hm
  · exact hrounds round hm
  · rw [List.mem_singleton.mp hm]
    exact hround last hlast

end InRounds

/-! ### How far the last round is -/

/-- Whether a run has come to its loop, or past it. -/
def Phase.hasBegun : Phase → Bool
  | .startUp => false
  | .loop | .final | .out _ => true

namespace Stage

/-- What a run has done since its last full round. -/
def Since (rejected : Record → Report → Prop) (last : List Event) : Stage → Prop
  | .polling => last = [.poll]
  | .delivering rest batch => batch ≠ [] ∧
    ∃ accepted, batch = accepted ++ rest ∧
      last = .poll :: .polled (.batch batch) :: handing accepted
  | .consulting false => ∃ batch, batch ≠ [] ∧ last = .poll :: serving batch
  | .consulting true => Interruption last
  | .flushing _ _ true => Leaving rejected (.ok .interrupted) last
  | .stoppingTask result | .stoppingConnector result | .stoppingStore result | .leaving result =>
    Leaving rejected result last
  | .startingStore _ | .startingConnector | .creatingTask | .startingTask _ | .resuming _ _
  | .looping | .flushing _ _ false => last = []

/-- **The milestones of a run at a stage**: full rounds, and how far the last one is. A run that has
not come to its loop has none, and it may fail so. -/
def Beats (rejected : Record → Report → Prop) (ms : List Event) (stage : Stage) : Prop :=
  ms = [] ∧ (stage.phase = .startUp ∨ ∃ e, stage.phase = .out (.error e)) ∨
    stage.phase.hasBegun = true ∧ InRounds (fun last => stage.Since rejected last) ms

/-- Whether the policy is consulted next. -/
def isDue : Stage → Bool
  | .delivering [] _ | .consulting _ => true
  | _ => false

variable {rejected rejected' : Record → Report → Prop} {ms last : List Event} {stage : Stage}

/-- A run on its way out has left its loop with its result. -/
theorem since_iff {result : RunResult} (hp : stage.phase = .out result) :
    stage.Since rejected last ↔ Leaving rejected result last := by
  cases stage with
  | consulting final | flushing _ _ final => cases final <;> cases hp
  | stoppingTask | stoppingConnector | stoppingStore | leaving =>
    cases hp
    exact Iff.rfl
  | _ => cases hp

/-- A run that has not come to its loop has no milestones. -/
theorem Beats.of_startUp (hb : stage.Beats rejected ms) (hp : stage.phase = .startUp) :
    ms = [] := by
  obtain ⟨rfl, -⟩ | ⟨hbegun, -⟩ := hb
  · rfl
  · rw [hp] at hbegun
    cases hbegun

/-- A run in its loop, or on its way to its last commit, is in its rounds. -/
theorem Beats.inRounds (hb : stage.Beats rejected ms)
    (hp : stage.phase = .loop ∨ stage.phase = .final) :
    InRounds (fun last => stage.Since rejected last) ms := by
  obtain ⟨-, hup | ⟨e, hout⟩⟩ | ⟨-, hrounds⟩ := hb
  · rcases hp with hp | hp <;> rw [hp] at hup <;> cases hup
  · rcases hp with hp | hp <;> rw [hp] at hout <;> cases hout
  · exact hrounds

/-- The milestones of a run on its way out are those of a run that ends with its result. -/
theorem beats_iff {result : RunResult} (hp : stage.phase = .out result) :
    stage.Beats rejected ms ↔
      InRounds (Leaving rejected result) ms ∨ ms = [] ∧ ∃ e, result = .error e := by
  constructor
  · rintro (⟨hms, hup | ⟨e, hout⟩⟩ | ⟨-, hrounds⟩)
    · rw [hp] at hup
      cases hup
    · exact .inr ⟨hms, e, Phase.out.inj (hp.symm.trans hout)⟩
    · exact .inl (hrounds.stays fun last => (since_iff hp).mp)
  · rintro (hrounds | ⟨hms, e, rfl⟩)
    · exact .inr ⟨by rw [hp]; rfl, hrounds.stays fun last => (since_iff hp).mpr⟩
    · exact .inl ⟨hms, .inr ⟨e, hp⟩⟩

/-- Where a run is in its last round stays so if more records are rejected. -/
theorem Since.imp (himp : ∀ x report, rejected x report → rejected' x report)
    (hs : stage.Since rejected last) : stage.Since rejected' last := by
  have leaves : ∀ {result}, Leaving rejected result last → Leaving rejected' result last := by
    rintro _ (_ | ⟨hcue, records, elapsed, fired⟩ | he | hx)
    · exact .stopped
    · exact .interrupted hcue records elapsed fired
    · exact .failed he
    · exact .rejected (himp _ _ hx)
  cases stage with
  | consulting final => cases final <;> exact hs
  | flushing _ _ final =>
    cases final with
    | false => exact hs
    | true => exact leaves hs
  | stoppingTask | stoppingConnector | stoppingStore | leaving => exact leaves hs
  | _ => exact hs

/-- The milestones of a run at a stage are its rounds if more records are rejected. -/
theorem Beats.imp (himp : ∀ x report, rejected x report → rejected' x report)
    (hb : stage.Beats rejected ms) : stage.Beats rejected' ms :=
  hb.imp_right fun ⟨hbegun, hrounds⟩ => ⟨hbegun, hrounds.stays fun _ hs => hs.imp himp⟩

end Stage

/-- **The milestones of a run**: its rounds, as far as it has come, and how it left its loop, given
which of its records were rejected and with which reports. A run that breaks off does so where the
policy is not due, and in a step that consults nobody. -/
def RunStatus.Beats (rejected : Record → Report → Prop) (ms : List Event) : RunStatus → Prop
  | .requested => ms = []
  | .active a => a.stage.Beats rejected ms
  | .ended (.returned result) => InRounds (Leaving rejected result) ms ∨
    ms = [] ∧ (result = .ok .alreadyRunning ∨ ∃ e, result = .error e)
  | .ended _ => ∃ (stage : Stage) (older newer : List Event), ms = older ++ newer ∧
    stage.Beats rejected older ∧ stage.isDue = false ∧ newer.all Event.isUncounted = true

/-- The milestones of a run are its rounds if more records are rejected. -/
theorem RunStatus.Beats.imp {rejected rejected' : Record → Report → Prop} {ms : List Event}
    {st : RunStatus} (himp : ∀ x report, rejected x report → rejected' x report)
    (hb : st.Beats rejected ms) : st.Beats rejected' ms := by
  cases st with
  | requested => exact hb
  | active a => exact Stage.Beats.imp himp hb
  | ended outcome =>
    cases outcome with
    | returned result =>
      -- A run that returns is as one that is about to.
      refine hb.imp_left fun hrounds => hrounds.stays fun last hleaving => ?_
      have hsince : (Stage.leaving result).Since rejected last := hleaving
      exact hsince.imp himp
    | panicked | aborted =>
      obtain ⟨stage, older, newer, heq, hold, hrest⟩ := hb
      exact ⟨stage, older, newer, heq, hold.imp himp, hrest⟩

namespace Host

variable {s : Setup} {rejected : Record → Report → Prop} {r : Nat} {h h' h₀ : Host} {a : Active}
  {es ms : List Event} {st' : RunStatus} {l' : Lifecycle}

/-! ### Steps -/

/-- A run that breaks off before its loop has no milestones. -/
theorem beats_brokeOff {outcome : RunEnd} (ho : ∀ exit, outcome ≠ .returned (.ok exit)) :
    (RunStatus.ended outcome).Beats rejected [] := by
  cases outcome with
  | returned result =>
    cases result with
    | ok exit => exact absurd rfl (ho exit)
    | error e => exact .inr ⟨rfl, .inr ⟨e, rfl⟩⟩
  | panicked | aborted =>
    exact ⟨.startingConnector, [], [], rfl, .inl ⟨rfl, .inl rfl⟩, rfl, rfl⟩

/-- **The first step of a run comes to no milestone.** -/
theorem Flow.beats_first (hf : Flow s h .requested es st' l') :
    st'.Beats rejected (es.filter Event.isMilestone) := by
  have accepted : ∀ {es : List Event}, es.all Event.isQuiet = true →
      (Event.accepted :: es).filter Event.isMilestone = [] := fun hes =>
    (List.filter_cons_of_neg Bool.false_ne_true).trans (filter_isMilestone_quiet hes)
  cases hf with
  | passes => exact .inr ⟨rfl, .inl rfl⟩
  | drops => exact beats_brokeOff fun _ => RunEnd.aborted_ne_returned _
  | enters _ hes hp =>
    rw [accepted hes]
    exact .inl ⟨rfl, .inl hp⟩
  | turnsBack _ hes ho =>
    rw [accepted hes]
    exact beats_brokeOff ho

/-- **One step goes on with a round, or comes to its end**, as long as no run breaks off where the
policy is due. -/
theorem Flow.beats (hf : Flow s h (.active a) es st' l') (hb : a.stage.Beats rejected ms)
    (hrejects : ∀ x es' report, es = .deliver x :: es' →
      (s.consumer h.deliveries).verdict = .rejects report → rejected x report)
    (hbreaks : ∀ outcome, st' = .ended outcome →
      a.stage.isDue = false ∧ es.all Event.isUncounted = true) :
    st'.Beats rejected (ms ++ es.filter Event.isMilestone) := by
  -- Where a run is in its loop, its rounds go on.
  have looping : ∀ {stage : Stage}, a.stage = stage → stage.phase = .loop ∨ stage.phase = .final →
      InRounds (fun last => stage.Since rejected last) ms := by
    rintro _ rfl hp
    exact hb.inRounds hp
  have inLoop : ∀ {b : Active} {stage : Stage} {ms : List Event}, b.stage = stage →
      stage.phase.hasBegun = true → InRounds (fun last => stage.Since rejected last) ms →
      (RunStatus.active b).Beats rejected ms := by
    rintro b _ ms rfl hp hrounds
    exact .inr ⟨hp, hrounds⟩
  cases hf with
  | prepares ha hes ha' =>
    rw [hb.of_startUp ha, filter_isMilestone_quiet hes]
    exact .inl ⟨rfl, ha'⟩
  | begins ha hes ha' =>
    rw [hb.of_startUp ha, List.filter_append, filter_isMilestone_quiet hes]
    exact inLoop ha' rfl (.start rfl)
  | polls ha _ ha' =>
    refine inLoop ha' rfl ((looping ha (.inl rfl)).goesOn ?_)
    rintro _ rfl
    rfl
  | stops ha _ ha' =>
    refine inLoop ha' rfl ((looping ha (.inl rfl)).goesOn ?_)
    rintro _ rfl
    exact .stopped
  | heeds ha _ ha' =>
    refine inLoop ha' rfl ?_
    rcases ha with ha | ha
    · refine (looping ha (.inl rfl)).goesOn ?_
      rintro _ rfl
      exact .raised
    · refine (looping ha (.inl rfl)).goesOn ?_
      rintro _ rfl
      exact .polling
  | idles ha hresult ha' =>
    refine inLoop ha' rfl ((looping ha (.inl rfl)).ends ?_ rfl)
    rintro _ rfl
    exact .idle hresult
  | receives ha ha' =>
    refine inLoop ha' rfl ((looping ha (.inl rfl)).goesOn ?_)
    rintro _ rfl
    exact ⟨by simp, [], rfl, rfl⟩
  | reports ha _ ha' =>
    refine inLoop ha' rfl ((looping ha (.inl rfl)).goesOn ?_)
    rintro _ rfl
    exact .reported
  | fails ha he ha' =>
    refine inLoop ha' rfl ((looping ha (.inl rfl)).goesOn ?_)
    rintro _ rfl
    exact .failed he
  | hands cs ha ha' =>
    refine inLoop ha' rfl ((looping ha (.inl rfl)).goesOn ?_)
    rintro _ ⟨hne, accepted, rfl, rfl⟩
    refine ⟨hne, accepted ++ [_], List.append_cons .., ?_⟩
    simp [List.filter_cons, filter_isMilestone_replies, Event.isMilestone, handing_concat]
  | @rejects _ _ x _ _ _ cs ha hv ha' =>
    refine inLoop ha' rfl ((looping ha (.inl rfl)).goesOn ?_)
    rintro _ ⟨-, accepted, rfl, rfl⟩
    have heq : (.deliver x :: h.lifecycle.replies cs).filter Event.isMilestone = [.deliver x] := by
      simp [List.filter_cons, filter_isMilestone_replies, Event.isMilestone]
    rw [heq]
    exact .rejected (hrejects _ _ _ rfl hv)
  | delivers ha ha' =>
    refine inLoop ha' rfl ((looping ha (.inl rfl)).goesOn ?_)
    rintro _ ⟨hne, accepted, hbatch, rfl⟩
    obtain rfl := hbatch.trans (List.append_nil accepted)
    exact ⟨_, hne, rfl⟩
  | @consults _ _ es es' records elapsed fired final ha hes hes' ha' =>
    have heq : (es ++ .consulted records elapsed fired :: es').filter Event.isMilestone =
        [.consulted records elapsed fired] := by
      simp [List.filter_cons, filter_isMilestone_quiet hes, filter_isMilestone_quiet hes',
        Event.isMilestone]
    rw [heq]
    cases final with
    | false =>
      have hround : ∀ last, (Stage.consulting false).Since rejected last →
          Round (last ++ [.consulted records elapsed fired]) := by
        rintro _ ⟨batch, hne, rfl⟩
        exact .served hne records elapsed fired
      rcases ha' with ha' | ⟨number, deadline, ha'⟩
      · exact inLoop ha' rfl ((looping ha (.inl rfl)).ends hround rfl)
      · exact inLoop ha' rfl ((looping ha (.inl rfl)).ends hround rfl)
    | true =>
      rcases ha' with ha' | ⟨number, deadline, ha'⟩
      · exact inLoop ha' rfl ((looping ha (.inr rfl)).goesOn fun _ hcue =>
          .interrupted hcue records elapsed fired)
      · exact inLoop ha' rfl ((looping ha (.inr rfl)).goesOn fun _ hcue =>
          .interrupted hcue records elapsed fired)
  | @flushes _ _ _ _ _ final ha hes ha' =>
    rw [filter_isMilestone_quiet hes, List.append_nil]
    cases final with
    | false => exact inLoop ha' rfl ((looping ha (.inl rfl)).stays fun _ hlast => hlast)
    | true => exact inLoop ha' rfl ((looping ha (.inr rfl)).stays fun _ hlast => hlast)
  | releases ha hes ha' =>
    rw [filter_isMilestone_quiet hes, List.append_nil]
    exact (Stage.beats_iff ha').mpr ((Stage.beats_iff ha).mp hb)
  | @ends _ _ outcome _ _ ho =>
    obtain ⟨hdue, hes⟩ := hbreaks outcome rfl
    cases outcome with
    | returned result =>
      obtain ⟨hquiet, ha⟩ := ho result rfl
      rw [filter_isMilestone_quiet hquiet, List.append_nil]
      obtain ha | ⟨ha, herror⟩ := ha
      · exact ((Stage.beats_iff ha).mp hb).imp_right fun hnone => ⟨hnone.1, .inr hnone.2⟩
      · exact .inr ⟨hb.of_startUp ha, .inr herror⟩
    | panicked | aborted =>
      refine ⟨a.stage, ms, _, rfl, hb, hdue, ?_⟩
      exact List.all_eq_true.mpr fun e he =>
        List.all_eq_true.mp hes e (List.mem_filter.mp he).1

/-! ### Runs under an executor -/

/-- **A run does not end where the policy is due.** -/
theorem ReachesUnbroken.not_isDue (hf : h₀.Fresh) (hr : ReachesUnbroken s h₀ h)
    (hst : h.status? r = some (.active a)) (hadv : h.advance s r = some h') {outcome : RunEnd}
    (hend : h'.status? r = some (.ended outcome)) : a.stage.isDue = false := by
  refine Bool.eq_false_iff.mpr fun hdue => ?_
  -- Neither of the two stages blocks or ends, and nobody drops the run there.
  have goes : ∀ {b : Active} {h₁ : Host}, h.isAborting r = false →
      h.step s r a = .goesOn b h₁ → False := by
    intro b h₁ hab hstep
    rw [advance_eq_step hab hst, hstep] at hadv
    obtain rfl := Option.some.inj hadv
    rw [status?_setStatus, if_pos rfl] at hend
    obtain ⟨_, -, hb⟩ := Option.map_eq_some_iff.mp hend
    cases hb
  have unbroken : ∀ {stage : Stage}, a.stage = stage → stage.isUnbroken = true →
      h.isAborting r = false := by
    rintro _ rfl hun
    exact hr.not_isAborting hf hst hun
  rw [Stage.isDue.eq_def] at hdue
  split at hdue
  · rename_i batch ha
    exact goes (unbroken ha rfl) (by rw [step, ha]; rfl)
  · rename_i final ha
    obtain ⟨hs, -⟩ :=
      ((Reaches.booked hf hr.reaches).ledger r a hst).settled (by rw [ha]; rfl)
    obtain ⟨b, h₁, hstep, -⟩ := consulting_begins s r final h hs
    exact goes (unbroken ha rfl) (by rw [step, ha]; exact hstep)
  · cases hdue

/-- A run that ends counts nothing in its last step. -/
theorem Adds.uncounted {h₁ : Host} {outcome : RunEnd} (hadds : h.Adds r es h₁)
    (hadv : h.advance s r = some (h₁.setStatus r st'))
    (hend : (h₁.setStatus r st').status? r = some (.ended outcome)) :
    es.all Event.isUncounted = true := by
  obtain ⟨st₂, es₂, st₂', h₂, hst₂, hadds₂, hc, heq⟩ := advance_counts hadv
  have hhistory : (h₁.setStatus r st').history = (h₂.setStatus r st₂').history :=
    congrArg Host.history heq
  have hsame : es₂.reverse ++ eventsOf r h.history = es.reverse ++ eventsOf r h.history := by
    rw [← hadds₂.eventsOf_self, ← hadds.eventsOf_self]
    exact congrArg (eventsOf r) hhistory.symm
  obtain rfl := List.reverse_injective (List.append_cancel_right hsame)
  rw [heq, hadds₂.status?_setStatus hst₂, if_pos rfl] at hend
  obtain rfl := Option.some.inj hend
  cases hc with
  | ends hes => exact hes

/-- **The milestones of a run are its rounds.** -/
theorem ReachesUnbroken.beats (hf : h₀.Fresh) (hr : ReachesUnbroken s h₀ h) {st : RunStatus}
    (hst : h.status? r = some st) :
    st.Beats (h.Rejected s h₀.deliveries r) (milestones (eventsOf r h.history)) := by
  induction hr generalizing st with
  | refl =>
    rw [hf.status?] at hst
    cases hst
  | @tail h h' hr hm ih =>
    have hreaches := ReachesUnbroken.reaches hr
    have nothing : h.status? r = none ∨ h.status? r = some .requested →
        eventsOf r h.history = [] := fun hbefore => by
      have hall := Reaches.allTraced hf hreaches
      rcases hbefore with hbefore | hbefore
      · exact hall.unasked r hbefore
      · exact List.reverse_eq_nil_iff.mp (hall.traced r _ hbefore)
    -- What was rejected before stays so.
    have later : ∀ {st : RunStatus} {ms : List Event},
        st.Beats (h.Rejected s h₀.deliveries r) ms →
        st.Beats (h'.Rejected s h₀.deliveries r) ms := by
      intro st ms hb
      exact hb.imp fun _ _ hx => hx.move hm.1
    refine hm.1.elim (fun hrests => ?_) (fun m w status es hw => ?_)
      fun r' _ _ _ _ hadv _ _ _ _ => ?_
    · rw [hrests.history]
      obtain heq | ⟨hnone, heq⟩ := hrests.status r
      · exact later (ih (heq ▸ hst))
      · rw [nothing (.inl hnone)]
        obtain rfl := Option.some.inj (heq.symm.trans hst)
        exact rfl
    · obtain ⟨es', hes', heq⟩ := hw.idles.events r
      have hquiet : es'.reverse.filter Event.isMilestone = [] :=
        filter_isMilestone_quiet (by rwa [List.all_reverse])
      rw [heq, ← List.reverse_reverse es', milestones_append, hquiet, List.append_nil]
      exact later (ih ((hw.status? r).symm.trans hst))
    · obtain ⟨st₁, es, st', h₁, hst₁, hadds, hflow, heq⟩ := advance_flows hadv
      subst heq
      change st.Beats (h₁.Rejected s h₀.deliveries r) (milestones (eventsOf r h₁.history))
      by_cases hrun : r' = r
      · subst hrun
        have hend : (h₁.setStatus r' st').status? r' = some st' := by
          rw [hadds.status?_setStatus hst₁, if_pos rfl]
        obtain rfl := Option.some.inj (hend.symm.trans hst)
        rw [hadds.eventsOf_self, milestones_append]
        cases st₁ with
        | requested =>
          rw [nothing (.inr hst₁)]
          exact hflow.beats_first
        | active a =>
          refine hflow.beats (later (ih hst₁)) ?_ ?_
          · rintro x es' report rfl hv
            exact hadds.rejected (Reaches.deliveries_eq hf hreaches) hv
          · rintro outcome rfl
            exact ⟨ReachesUnbroken.not_isDue hf hr hst₁ hadv hend, hadds.uncounted hadv hend⟩
        | ended outcome => exact absurd rfl (hflow.ne_ended outcome)
      · rw [hadds.status?_setStatus hst₁, if_neg hrun] at hst
        rw [hadds.eventsOf_of_ne hrun]
        exact later (ih hst)

/-! ### When the policy is consulted, and with what -/

/-- **The policy is consulted exactly when it should be, with exact counters.** Wherever a run
stands, and whenever it consults the policy, its counters are the records delivered since its last
confirmed flush and the time since then; before the first one, since its loop began. A flush is
confirmed only after its write was answered with success, and under an executor that is never late
within the commit timeout. Under any executor the policy is consulted once after each batch of
records that is delivered, once for an interrupt, and never otherwise. -/
theorem Reaches.consults_exactly (hf : h₀.Fresh) (hr : Reaches s h₀ h) :
    h.Tallied s ∧ Throughout AnswersCommitted h.history ∧
      (ReachesUnbroken s h₀ h → ∀ r st, h.status? r = some st →
        st.Beats (h.Rejected s h₀.deliveries r) (milestones (eventsOf r h.history))) ∧
      (ReachesPromptly s h₀ h → Throughout (ClosesInTime s) h.history) :=
  ⟨Reaches.tallied hf hr, (Reaches.answered hf hr).committed,
    fun hu _ _ hst => ReachesUnbroken.beats hf hu hst,
    fun hp => ReachesPromptly.closes_in_time hf hp⟩

/-- A batch is delivered and its flush confirmed; then a second batch is, and the run polls again. -/
theorem consults_exactly_after_two_batches :
    let s : Setup :=
      { config := { name := "engine", connectorClass := "source", flushTimeout := 5000
                    keyConverter := .json, valueConverter := .json, properties := [] }
        registry := Registry.empty.register "source" {}
        policy := .every 2
        consumer := fun _ => {} }
    let x (row : Nat) : Record :=
      { partition := [("shard", .number (.integer 1))]
        offset := [("row", .number (.integer row))]
        topic := "rows", key := none, value := .null, timestamp := none }
    let h₀ : Host := { feed := [.batch [x 1], .nothing, .batch [x 2, x 3], .batch [x 4]] }
    let h := ((h₀.request.runOn s 0 40).turnWrite 0).runOn s 0 40
    (eventsOf 0 h.history).filterMap Event.consultation? =
        [(1, 0, false), (3, 0, true), (1, 0, false)] ∧
      ReachesPromptly s h₀ h ∧ h.Tallied s ∧ Throughout AnswersCommitted h.history ∧
        (∀ r st, h.status? r = some st →
          st.Beats (h.Rejected s 0 r) (milestones (eventsOf r h.history))) ∧
          Throughout (ClosesInTime s) h.history := by
  intro s x h₀ h
  have hf : h₀.Fresh := ⟨rfl, rfl, rfl, rfl⟩
  have hp₁ : ReachesPromptly s h₀ (h₀.request.runOn s 0 40) :=
    ReachesPromptly.runOn (ReachesPromptly.request .refl) 0 40
  have hp : ReachesPromptly s h₀ h :=
    ReachesPromptly.runOn (hp₁.tail ⟨.write 0, .write 0⟩) 0 40
  have hconsulted : (eventsOf 0 h.history).filterMap Event.consultation? =
      [(1, 0, false), (3, 0, true), (1, 0, false)] := by decide +kernel
  clear_value h
  obtain ⟨htallied, hanswered, hbeats, hcloses⟩ :=
    Reaches.consults_exactly hf (ReachesPromptly.reaches hp)
  exact ⟨hconsulted, hp, htallied, hanswered, hbeats (ReachesPromptly.unbroken hp), hcloses hp⟩

end Host

end ChangeCapture
