import ChangeCapture.Proofs.Run.Counts
import ChangeCapture.Proofs.Run.Ledger

/-!
# The last commit of an interrupted run

A run that takes note of an interrupt leaves its loop and consults the policy once more before it
returns. What it then owes is submitted if the policy agrees, and only then: a policy that waits for
more records or for more time lets the run return with its positions uncommitted.

## Main definitions

* `LastCommit`: the last commit of a run, read off its events.
* `Stage.mark`: how far a run is with its last commit.

## Main results

* `Host.Counts.holds` — one step takes a last commit as far as it should.
* `Host.Reaches.commits_last` — what a run did that ended with an interrupt.
* `Host.not_commits_deferred` — a policy that waits keeps a run from its last flush.
-/

namespace ChangeCapture

/-! ### Consultations and submissions -/

/-- The entries of a flush that is submitted. -/
def Event.submission? : Event → Option Entries
  | .submitted _ entries => some entries
  | _ => none

/-- Whether an event has no part in a last commit. -/
def Event.isBystander : Event → Bool
  | .interruptCleared | .consulted _ _ _ | .submitted _ _ => false
  | _ => true

/-- Uncounted events have no part in a last commit. -/
theorem Event.isBystander_uncounted {es : List Event} (h : es.all Event.isUncounted = true) :
    es.all Event.isBystander = true := by
  refine List.all_eq_true.mpr fun e he => ?_
  have huncounted := List.all_eq_true.mp h e he
  cases e <;> first | rfl | cases huncounted

/-- Events of writes have no part in a last commit. -/
theorem Event.isBystander_write {es : List Event}
    (h : ∀ e ∈ es, ∃ n entries, e.IsOfWrite n entries) : es.all Event.isBystander = true := by
  refine List.all_eq_true.mpr fun e he => ?_
  obtain ⟨n, entries, rfl | ⟨_, rfl⟩ | rfl⟩ := h e he <;> rfl

/-- What has a part in a last commit, and neither consults nor submits, takes note of it. -/
theorem Event.eq_interruptCleared {e : Event} (hpart : e.isBystander = false)
    (hconsults : e.consultation? = none) (hsubmits : e.submission? = none) :
    e = .interruptCleared := by
  cases e with
  | interruptCleared => rfl
  | consulted => cases hconsults
  | submitted => cases hsubmits
  | _ => cases hpart

section Bystanders

variable {es : List Event} (h : es.all Event.isBystander = true)
include h

/-- Bystanders consult nobody. -/
theorem filterMap_consultation? : es.filterMap Event.consultation? = [] := by
  refine List.filterMap_eq_nil_iff.mpr fun e he => ?_
  have hby := List.all_eq_true.mp h e he
  cases e <;> first | rfl | cases hby

/-- Bystanders submit nothing. -/
theorem filterMap_submission? : es.filterMap Event.submission? = [] := by
  refine List.filterMap_eq_nil_iff.mpr fun e he => ?_
  have hby := List.all_eq_true.mp h e he
  cases e <;> first | rfl | cases hby

end Bystanders

section Consultation

variable (s : Setup) (now : Nat) (a : Active)

/-- A consultation takes note of no interrupt. -/
theorem interruptCleared_not_mem_consultation : .interruptCleared ∉ consultation s now a := by
  simp [consultation]

/-- A consultation is one. -/
theorem consultation?_consultation :
    (consultation s now a).reverse.filterMap Event.consultation? =
      [(a.records, now - a.lastCommit, s.policy.fires a.records (now - a.lastCommit))] := by
  have hprobes : ∀ probes : List (String × Bool),
      (probes.map fun p => Event.probed p.1 p.2).filterMap Event.consultation? = [] := by
    intro probes
    rw [List.filterMap_map]
    exact List.filterMap_eq_nil_iff.mpr fun _ _ => rfl
  rw [consultation, List.reverse_append, List.filterMap_append, ← List.map_reverse, hprobes]
  rfl

/-- A consultation submits nothing. -/
theorem submission?_consultation :
    (consultation s now a).reverse.filterMap Event.submission? = [] := by
  refine List.filterMap_eq_nil_iff.mpr fun e he => ?_
  rw [consultation] at he
  rcases List.mem_append.mp (List.mem_reverse.mp he) with hm | hm
  · obtain ⟨p, -, rfl⟩ := List.mem_map.mp hm
    rfl
  · rw [List.mem_singleton.mp hm]
    rfl

end Consultation

/-! ### The last commit -/

/-- **The last commit of a run**, given its events before and after it took note of its interrupt,
the newest first. The policy is consulted once more; what is owed by then is submitted once if it
agrees, and otherwise nothing is. -/
structure LastCommit (s : Setup) (records elapsed : Nat) (later older : List Event) : Prop where
  once : .interruptCleared ∉ later ∧ .interruptCleared ∉ older
  consults : later.filterMap Event.consultation? =
    [(records, elapsed, s.policy.fires records elapsed)]
  submits : s.policy.fires records elapsed = true → owedPositions older ≠ [] →
    later.filterMap Event.submission? = [s.offsetFormat.entriesOf (owedPositions older)]
  declines : s.policy.fires records elapsed = false ∨ owedPositions older = [] →
    later.filterMap Event.submission? = []

/-- Bystanders may be added to a last commit. -/
theorem LastCommit.append {s : Setup} {records elapsed : Nat} {later older newer : List Event}
    (h : LastCommit s records elapsed later older) (hby : newer.all Event.isBystander = true) :
    LastCommit s records elapsed (newer ++ later) older where
  once := by
    refine ⟨fun hm => ?_, h.once.2⟩
    rcases List.mem_append.mp hm with hm | hm
    · exact Event.not_mem_of_all hby rfl hm
    · exact h.once.1 hm
  consults := by
    rw [List.filterMap_append, filterMap_consultation? hby, List.nil_append, h.consults]
  submits := by
    rw [List.filterMap_append, filterMap_submission? hby, List.nil_append]
    exact h.submits
  declines := by
    rw [List.filterMap_append, filterMap_submission? hby, List.nil_append]
    exact h.declines

/-- How far a run is with its last commit. -/
inductive Mark where
  | before
  /-- The interrupt was just taken note of. -/
  | due
  | made
  /-- The run is over, and was not interrupted. -/
  | unneeded

/-- What the events of a run tell of its last commit, the newest first. -/
def Mark.Holds (s : Setup) (es : List Event) : Mark → Prop
  | .before => .interruptCleared ∉ es
  | .due => ∃ older, es = .interruptCleared :: older ∧ .interruptCleared ∉ older
  | .made => ∃ later records elapsed older, es = later ++ .interruptCleared :: older ∧
      LastCommit s records elapsed later older
  | .unneeded => True

/-- Bystanders change nothing once the policy was consulted, and nothing before the interrupt. -/
theorem Mark.Holds.append {s : Setup} {mark : Mark} {es newer : List Event}
    (h : mark.Holds s es) (hmark : mark ≠ .due) (hby : newer.all Event.isBystander = true) :
    mark.Holds s (newer ++ es) := by
  cases mark with
  | before =>
    intro hm
    rcases List.mem_append.mp hm with hm | hm
    · exact Event.not_mem_of_all hby rfl hm
    · exact h hm
  | due => exact absurd rfl hmark
  | made =>
    obtain ⟨later, records, elapsed, older, rfl, hlast⟩ := h
    exact ⟨newer ++ later, records, elapsed, older, (List.append_assoc ..).symm, hlast.append hby⟩
  | unneeded => trivial

/-- How far a run of a phase is with its last commit, if it does not commit. -/
def Phase.mark : Phase → Mark
  | .out (.ok .interrupted) => .made
  | _ => .before

/-- A run that leaves a phase with a result that is no interrupt makes no last commit. -/
theorem Phase.LeadsTo.mark_eq {p p' : Phase} (h : p.LeadsTo p') : p'.mark = p.mark := by
  obtain rfl | ⟨hover, result, rfl, hresult⟩ := h
  · rfl
  · have hbefore : p.mark = .before := by
      cases p with
      | out => cases hover
      | _ => rfl
    rw [hbefore, Phase.mark.eq_def]
    split
    · rename_i heq
      exact absurd (Phase.out.inj heq) hresult
    · rfl

/-- How far a run at a stage is with its last commit. -/
def Stage.mark : Stage → Mark
  | .consulting final => if final then .due else .before
  | .flushing _ _ final => if final then .made else .before
  | stage => stage.phase.mark

/-- A run that does not commit is as far as its phase says. -/
theorem Stage.mark_of_not_isCommitting {stage : Stage} (h : stage.isCommitting = false) :
    stage.mark = stage.phase.mark := by
  cases stage <;> first | rfl | cases h

/-- A run that has been through a commit has made its last one if it was the last one. -/
theorem mark_afterCommit (a : Active) (final : Bool) :
    (Host.afterCommit a final).stage.mark = if final then .made else .before := by
  cases final <;> rfl

/-- How far a run is with its last commit. -/
def RunStatus.mark : RunStatus → Mark
  | .requested => .before
  | .active a => a.stage.mark
  | .ended (.returned (.ok .interrupted)) => .made
  | .ended _ => .unneeded

/-- Whether a run has returned with an exit. -/
def RunStatus.hasReturned (exit : RunExit) : RunStatus → Bool
  | .ended (.returned (.ok exit')) => exit' = exit
  | _ => false

/-- A run that has returned with an exit has ended so. -/
theorem RunStatus.eq_of_hasReturned {exit : RunExit} {st : RunStatus}
    (h : st.hasReturned exit = true) : st = .ended (.returned (.ok exit)) := by
  rw [hasReturned.eq_def] at h
  split at h
  · rw [of_decide_eq_true h]
  · cases h

/-- A run that ended otherwise needs no last commit. -/
theorem RunStatus.mark_ended {outcome : RunEnd} (h : outcome ≠ .returned (.ok .interrupted)) :
    (RunStatus.ended outcome).mark = .unneeded := by
  rw [RunStatus.mark.eq_def]
  split
  · rename_i heq
    cases heq
  · rename_i heq
    cases heq
  · rename_i heq
    exact absurd (RunStatus.ended.inj heq) h
  · rfl

/-- A run that waits for a write has no last commit due, and neither has one that has ended. -/
theorem RunStatus.mark_ne_due {st : RunStatus}
    (h : ∀ a, st = .active a → ∃ n, a.stage.standing = .waiting n) : st.mark ≠ .due := by
  rw [RunStatus.mark.eq_def]
  split
  · nofun
  · rename_i a
    obtain ⟨n, hn⟩ := h a rfl
    intro hdue
    rw [Stage.mark.eq_def] at hdue
    split at hdue
    · rename_i hstage
      rw [hstage] at hn
      cases hn
    · split at hdue <;> cases hdue
    · rw [Phase.mark.eq_def] at hdue
      split at hdue <;> cases hdue
  · nofun
  · nofun

namespace Host

variable {s : Setup} {h h₀ : Host} {a : Active} {es es' : List Event} {st' : RunStatus} {r : Nat}

/-! ### Steps -/

/-- A last consultation of the policy, and what comes of it. -/
theorem lastCommit_consultation {newer older : List Event} (now : Nat) (a : Active)
    (hno : .interruptCleared ∉ older) (hnew : .interruptCleared ∉ newer)
    (hconsults : newer.filterMap Event.consultation? = [])
    (hsubmits : s.policy.fires a.records (now - a.lastCommit) = true → owedPositions older ≠ [] →
      newer.filterMap Event.submission? = [s.offsetFormat.entriesOf (owedPositions older)])
    (hdeclines : s.policy.fires a.records (now - a.lastCommit) = false ∨ owedPositions older = [] →
      newer.filterMap Event.submission? = []) :
    LastCommit s a.records (now - a.lastCommit) (newer ++ (consultation s now a).reverse)
      older where
  once := by
    refine ⟨fun hm => ?_, hno⟩
    rcases List.mem_append.mp hm with hm | hm
    · exact hnew hm
    · exact interruptCleared_not_mem_consultation s now a (List.mem_reverse.mp hm)
  consults := by
    rw [List.filterMap_append, hconsults, consultation?_consultation]
    rfl
  submits := by
    rw [List.filterMap_append, submission?_consultation, List.append_nil]
    exact hsubmits
  declines := by
    rw [List.filterMap_append, submission?_consultation, List.append_nil]
    exact hdeclines

/-- A consultation in the loop leaves the interrupt alone. -/
theorem before_consultation {newer : List Event} (now : Nat) (a : Active)
    (hold : Mark.before.Holds s es) (hnew : .interruptCleared ∉ newer) :
    Mark.before.Holds s (newer ++ (consultation s now a).reverse ++ es) := by
  intro hm
  rcases List.mem_append.mp hm with hm | hm
  · rcases List.mem_append.mp hm with hm | hm
    · exact hnew hm
    · exact interruptCleared_not_mem_consultation s now a (List.mem_reverse.mp hm)
  · exact hold hm

/-- **One step takes a last commit as far as it should.** -/
theorem Counts.holds (hl : Ledger s h.writes a es) (hc : Counts s h (.active a) es' st')
    (ha : a.stage.mark.Holds s es) : st'.mark.Holds s (es'.reverse ++ es) := by
  have reversed : ∀ {es : List Event}, es.all Event.isUncounted = true →
      es.reverse.all Event.isBystander = true := fun hes =>
    (List.all_reverse ..).trans (Event.isBystander_uncounted hes)
  have quiet : ∀ {es' : List Event}, a.stage.mark ≠ .due → es'.all Event.isBystander = true →
      a.stage.mark.Holds s (es'.reverse ++ es) := fun hdue hby =>
    ha.append hdue ((List.all_reverse ..).trans hby)
  have settled : ∀ final, a.stage = .consulting final → a.writer.pending = owedPositions es := by
    intro final hstage
    exact (hl.settled (by rw [hstage]; rfl)).2
  cases hc with
  | @ends _ _ outcome hes _ hexit =>
    by_cases ho : outcome = .returned (.ok .interrupted)
    · subst ho
      obtain ⟨_, ⟨⟩, hout⟩ := hexit rfl
      have hmade : a.stage.mark = .made := by
        rw [Stage.mark_of_not_isCommitting, hout]
        · rfl
        · exact Stage.isCommitting_of_phase (by rw [hout]; nofun) (by rw [hout]; nofun)
      rw [hmade] at ha
      exact ha.append nofun (reversed hes)
    · rw [RunStatus.mark_ended ho]
      trivial
  | keeps hes hstage hstage' hphase =>
    rw [RunStatus.mark, Stage.mark_of_not_isCommitting hstage', hphase.mark_eq,
      ← Stage.mark_of_not_isCommitting hstage]
    refine quiet ?_ (Event.isBystander_uncounted hes)
    rw [Stage.mark_of_not_isCommitting hstage, Phase.mark.eq_def]
    split <;> nofun
  | begins hes hup hstage' =>
    have hbefore : a.stage.mark = .before := by
      rw [Stage.mark_of_not_isCommitting, hup]
      · rfl
      · exact Stage.isCommitting_of_phase (by rw [hup]; nofun) (by rw [hup]; nofun)
    rw [hbefore] at quiet
    rw [RunStatus.mark, hstage']
    refine quiet nofun ?_
    rw [List.all_append, Event.isBystander_uncounted hes]
    rfl
  | delivers hstage hstage' =>
    rw [hstage] at quiet
    rw [RunStatus.mark, hstage']
    exact quiet nofun rfl
  | heeds hes hstage hstage' =>
    have hbefore : a.stage.mark = .before := by
      rcases hstage with hstage | hstage <;> rw [hstage] <;> rfl
    rw [hbefore] at ha
    rw [RunStatus.mark, hstage', List.reverse_append, List.append_assoc]
    exact ⟨_, rfl, ha.append nofun (reversed hes)⟩
  | @skips _ _ newer final hstage hno hes hstage' =>
    rw [hstage] at ha
    rw [RunStatus.mark, hstage', mark_afterCommit, List.reverse_append]
    cases final with
    | false => exact before_consultation h.now a ha (Event.not_mem_of_all (reversed hes) rfl)
    | true =>
      obtain ⟨older, rfl, hold⟩ := ha
      refine ⟨newer.reverse ++ (consultation s h.now a).reverse, _, _, older, rfl,
        lastCommit_consultation h.now a hold (Event.not_mem_of_all (reversed hes) rfl)
          (filterMap_consultation? (reversed hes)) ?_ fun _ =>
            filterMap_submission? (reversed hes)⟩
      intro hfires howed
      obtain ⟨w, hbegin, hsubmit⟩ := hl.submits (by rw [hstage]; rfl) howed
      exact absurd hsubmit (hno hfires w _ _ hbegin)
  | @submits _ _ w flushId _ entries final hstage hfires hbegin hsubmit hstage' =>
    rw [hstage] at ha
    obtain ⟨-, hpending, -⟩ := OffsetWriter.beginFlush_eq_ok_some hbegin
    rw [settled final hstage] at hpending
    rw [Ledger.submit_of_beginFlush hl.format hbegin, settled final hstage] at hsubmit
    obtain ⟨-, rfl⟩ := Submission.submitted.inj hsubmit
    rw [RunStatus.mark, hstage', List.reverse_append]
    cases final with
    | false => exact before_consultation h.now a ha (by simp)
    | true =>
      obtain ⟨older, rfl, hold⟩ := ha
      refine ⟨_, _, _, older, rfl,
        lastCommit_consultation h.now a hold (by simp) rfl (fun _ _ => rfl) fun hno => ?_⟩
      rcases hno with hno | hno
      · rw [hfires] at hno
        cases hno
      · exact absurd hno hpending
  | @commits _ _ _ number _ final hstage hes hstage' =>
    have hmark : a.stage.mark = if final then .made else .before := by rw [hstage]; rfl
    rw [RunStatus.mark, hstage', mark_afterCommit, ← hmark]
    refine quiet (by rw [hmark]; cases final <;> nofun) ?_
    rw [List.all_append, Event.isBystander_uncounted hes]
    rfl
  | @givesUp _ _ _ _ _ final hstage hstage' =>
    have hmark : a.stage.mark = if final then .made else .before := by rw [hstage]; rfl
    rw [RunStatus.mark, hstage', mark_afterCommit, ← hmark]
    exact quiet (by rw [hmark]; cases final <;> nofun) rfl

/-! ### Runs -/

/-- **A run is as far with its last commit as it should be**, wherever it stands. -/
theorem Reaches.holds (hf : h₀.Fresh) (hr : Reaches s h₀ h) {st : RunStatus}
    (hst : h.status? r = some st) (hreq : st ≠ .requested) :
    st.mark.Holds s (eventsOf r h.history) := by
  refine hr.counted (P := fun _ st es => st.mark.Holds s es) hf ?_ (fun _ hold => hold) ?_ ?_ hst
    hreq
  · intro h es st' _ hc
    have hbefore : ∀ {es : List Event}, es.all Event.isUncounted = true →
        Mark.before.Holds s es.reverse := fun hes =>
      Event.not_mem_of_all ((List.all_reverse ..).trans (Event.isBystander_uncounted hes)) rfl
    cases hc with
    | starts hes hup =>
      rw [RunStatus.mark, Stage.mark_of_not_isCommitting, hup]
      · exact hbefore hes
      · exact Stage.isCommitting_of_phase (by rw [hup]; nofun) (by rw [hup]; nofun)
    | ends _ _ hexit =>
      rw [RunStatus.mark_ended fun ho => by obtain ⟨_, ⟨⟩, _⟩ := hexit ho]
      trivial
  · intro now st es es' hwait hes hold
    exact hold.append (RunStatus.mark_ne_due hwait) (Event.isBystander_write hes)
  · intro h a es st' hr hst hc hold
    exact hc.holds ((Reaches.booked hf hr).ledger r a hst) hold

/-- **What a run does that is interrupted.** It takes note of its interrupt once, and then it
consults the policy once, with its counters, before it returns. If the policy agrees and positions
of this run are not covered by a confirmed flush, exactly these are submitted, in one flush;
otherwise nothing is. -/
theorem Reaches.commits_last (hf : h₀.Fresh) (hr : Reaches s h₀ h)
    (hst : h.status? r = some (.ended (.returned (.ok .interrupted)))) :
    ∃ later records elapsed older, eventsOf r h.history = later ++ .interruptCleared :: older ∧
      LastCommit s records elapsed later older :=
  Reaches.holds hf hr hst nofun

/-- A run of a host that has returned with an exit has ended so. -/
theorem status?_of_hasReturned {exit : RunExit}
    (hreturned : (h.status? r).any (RunStatus.hasReturned exit) = true) :
    h.status? r = some (.ended (.returned (.ok exit))) := by
  cases hst : h.status? r with
  | none => simp [hst] at hreturned
  | some st =>
    rw [hst] at hreturned
    exact congrArg some (RunStatus.eq_of_hasReturned hreturned)

/-- The write of a flush has failed when the task reports an interrupt, and another flush is
submitted. -/
theorem commits_last_after_failed_write :
    let s : Setup :=
      { config := { name := "engine", connectorClass := "source", flushTimeout := 5000
                    keyConverter := .json, valueConverter := .json, properties := [] }
        registry := Registry.empty.register "source" {}
        consumer := fun _ => {} }
    let x : Record :=
      { partition := [("shard", .number (.integer 1))], offset := [("row", .number (.integer 7))]
        topic := "rows", key := none, value := .null, timestamp := none }
    let plan : StorePlan :=
      { sets := fun call => if call = 0 then .answers 0 (some .flushAborted) else .succeeds }
    let h₀ : Host := { feed := [.batch [x], .fails .interrupted], store := { plan } }
    let h := (((h₀.request.runOn s 0 20).turnWrite 0).runOn s 0 20 |>.turnWrite 1).runOn s 0 20
    h.status? 0 = some (.ended (.returned (.ok .interrupted))) ∧
      ∃ later records elapsed older, eventsOf 0 h.history = later ++ .interruptCleared :: older ∧
        LastCommit s records elapsed later older := by
  intro s x plan h₀ h
  have hf : h₀.Fresh := ⟨rfl, rfl, rfl, rfl⟩
  have hfirst : Reaches s h₀ (((h₀.request.runOn s 0 20).turnWrite 0).runOn s 0 20) :=
    Reaches.runOn (.tail (Reaches.runOn (.tail .refl .request) 0 20) (.write 0)) 0 20
  have hr : Reaches s h₀ h := Reaches.runOn (.tail hfirst (.write 1)) 0 20
  have hst : h.status? 0 = some (.ended (.returned (.ok .interrupted))) :=
    status?_of_hasReturned (by decide +kernel)
  exact ⟨hst, Reaches.commits_last hf hr hst⟩

/-- **A policy that waits keeps a run from its last flush.** A run that commits every hundred
records has delivered one when it is interrupted. It returns that it was interrupted, owes a
position that no flush has confirmed, and submits nothing. -/
theorem not_commits_deferred :
    ¬ ∀ (s : Setup) (h₀ h : Host) (r : Nat), h₀.Fresh → Reaches s h₀ h →
      h.status? r = some (.ended (.returned (.ok .interrupted))) →
      ∀ later older, eventsOf r h.history = later ++ .interruptCleared :: older →
        owedPositions older ≠ [] →
        later.filterMap Event.submission? = [s.offsetFormat.entriesOf (owedPositions older)] := by
  intro hall
  let s : Setup :=
    { config := { name := "engine", connectorClass := "source", flushTimeout := 5000
                  keyConverter := .json, valueConverter := .json, properties := [] }
      registry := Registry.empty.register "source" {}
      policy := .every 100
      consumer := fun _ => {} }
  let x : Record :=
    { partition := [("shard", .number (.integer 1))], offset := [("row", .number (.integer 7))]
      topic := "rows", key := none, value := .null, timestamp := none }
  let h₀ : Host := { feed := [.batch [x]] }
  let h := ((h₀.request.runOn s 0 20).ask .interrupt).2.runOn s 0 20
  have hr : Reaches s h₀ h :=
    Reaches.runOn (.tail (Reaches.runOn (.tail .refl .request) 0 20) (.ask .interrupt)) 0 20
  have hst : h.status? 0 = some (.ended (.returned (.ok .interrupted))) :=
    status?_of_hasReturned (by decide +kernel)
  have hpart : (eventsOf 0 h.history)[5]?.map (fun e =>
      (e.isBystander, e.consultation?, e.submission?.isNone)) = some (false, none, true) := by
    decide +kernel
  obtain ⟨e, he, hpart⟩ := Option.map_eq_some_iff.mp hpart
  simp only [Prod.mk.injEq, Option.isNone_iff_eq_none] at hpart
  obtain rfl := Event.eq_interruptCleared hpart.1 hpart.2.1 hpart.2.2
  have howed : owedPositions ((eventsOf 0 h.history).drop 6) ≠ [] := by decide +kernel
  have hnone : ((eventsOf 0 h.history).take 5).filterMap Event.submission? = [] := by
    decide +kernel
  have hlast := hall s h₀ h 0 ⟨rfl, rfl, rfl, rfl⟩ hr hst _ _ (eq_take_append_cons_drop he) howed
  rw [hnone] at hlast
  cases hlast

end Host

end ChangeCapture
