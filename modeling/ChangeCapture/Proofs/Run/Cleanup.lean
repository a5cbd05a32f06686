import ChangeCapture.Proofs.Run.Orderly

/-!
# What a run takes hold of, it gives back

The events of a run that returns are its work and then its way out. On the way out the run gives
back what it took hold of, all of it, once, and the last first; whatever failed before, it returns
the failure of the stage that met it.

## Main definitions

* `Traced`: what the events of a run may be, given how far it is.

## Main results

* `Traced.calls` — one step keeps the events in shape.
* `Host.Reaches.failed_iff` — a run returns a failure exactly if one of its stages met it.
* `Host.Reaches.cleans_up` — the cleanup of a run that returns.
-/

namespace ChangeCapture

/-! ### The shape of a run's events -/

/-- Events that are work, take hold of things in order, and create at most one task. -/
structure Worked (work : List Event) : Prop where
  isWork : work.all Event.isWork = true
  inOrder : heldBy work <+: Held.inOrder
  created : creations work ≤ 1

/-- **What the events of a run may be**, given how far it is: its work, and what it gave back. -/
def Traced (s : Setup) : RunStatus → List Event → Prop
  | .requested, es => es = []
  | .active a, es =>
    s.IsSound ∧ ∃ work released, es = work ++ released.map Held.release ∧ Worked work ∧
      (heldBy work).reverse = released ++ a.stage.holding ∧ creations work + a.stage.toCreate ≤ 1 ∧
      (a.stage.result? = none → released = [])
  | .ended (.returned result), es =>
    es = [] ∧ result = .ok .alreadyRunning ∨
    ∃ work, es = work ++ (heldBy work).reverse.map Held.release ++ closing result ∧ Worked work ∧
      (¬ s.IsSound → work = [.accepted])
  | .ended _, _ => True

/-- What a run holds, it took hold of in order. -/
theorem Stage.holding_prefix (stage : Stage) : stage.holding.reverse <+: Held.inOrder := by
  cases stage <;> simp [holding, Held.inOrder]

/-- Without work nothing was taken hold of. -/
theorem Worked.nil : Worked [] :=
  ⟨rfl, List.nil_prefix, Nat.zero_le 1⟩

/-- More work is done. -/
theorem Worked.append {work es : List Event} {stage : Stage} (hw : Worked work)
    (hes : es.all Event.isWork = true)
    (hheld : stage.holding = (heldBy es).reverse ++ (heldBy work).reverse)
    (hcreate : creations work + creations es ≤ 1) : Worked (work ++ es) where
  isWork := by rw [List.all_append, hw.isWork, hes]; rfl
  inOrder := by
    rw [heldBy_append, ← List.reverse_reverse (heldBy work ++ heldBy es),
      List.reverse_append, ← hheld]
    exact stage.holding_prefix
  created := by rwa [creations_append]

namespace Traced

variable {s : Setup} {h : Host} {st st' : RunStatus} {es es' : List Event}

/-- **One step keeps the events in shape.** -/
theorem calls (ht : Traced s st es) (hlive : ∀ o, st ≠ .ended o) (hc : Calls s h st es' st') :
    Traced s st' (es ++ es') := by
  cases hc with
  | turnedAway => exact .inl ⟨by rw [show es = [] from ht]; rfl, rfl⟩
  | @works _ _ a' hst hfirst hwork hheld hcreate =>
    cases st with
    | ended outcome => exact absurd rfl (hlive outcome)
    | requested =>
      obtain rfl : es = [] := ht
      have hw : Worked ([] ++ es') :=
        Worked.nil.append hwork (hheld.trans (by rfl)) (by
          rw [show creations [] = 0 from rfl, Nat.zero_add]
          exact Nat.le_of_add_right_le hcreate)
      refine ⟨hfirst rfl, es', [], by simp, hw, ?_, ?_, fun _ => rfl⟩
      · rw [hheld]
        simp [RunStatus.holding]
      · exact hcreate
    | active a =>
      obtain ⟨hs, work, released, rfl, hw, heq, hmay, hnone⟩ := ht
      obtain rfl := hnone hst
      rw [List.nil_append] at heq
      rw [RunStatus.toCreate] at hcreate
      rw [RunStatus.holding, ← heq] at hheld
      refine ⟨hs, work ++ es', [], by simp, hw.append hwork hheld (by omega), ?_, ?_, fun _ => rfl⟩
      · rw [heldBy_append, List.reverse_append, List.nil_append, hheld]
      · rw [creations_append]
        omega
  | @releases a a' x ha hres hheld =>
    obtain ⟨hs, work, released, rfl, hw, heq, hmay, -⟩ := ht
    refine ⟨hs, work, released ++ [x], by simp, hw, ?_, ?_, ?_⟩
    · rw [heq, hheld, List.append_assoc]
      rfl
    · have : a'.stage.toCreate = 0 := by
        cases hst : a'.stage <;> first | rfl | (rw [hst] at hres; exact absurd hres.symm ha)
      rw [this]
      exact hw.created
    · intro hnone
      exact absurd (hres ▸ hnone) ha
  | leaves ha =>
    obtain ⟨hs, work, released, rfl, hw, heq, -, -⟩ := ht
    rw [ha, Stage.holding, List.append_nil] at heq
    exact .inr ⟨work, by rw [heq], hw, fun hno => absurd hs hno⟩
  | @fails _ first e hst hheld hes =>
    rcases hes with ⟨rfl, rfl⟩ | ⟨hno, rfl⟩
    · obtain rfl : es = [] := ht
      exact .inr ⟨[.accepted], rfl, ⟨rfl, List.nil_prefix, Nat.zero_le 1⟩, fun _ => rfl⟩
    · cases st with
      | requested => exact absurd rfl hno
      | ended outcome => exact absurd rfl (hlive outcome)
      | active a =>
        obtain ⟨hs, work, released, rfl, hw, heq, -, hnone⟩ := ht
        obtain rfl := hnone hst
        rw [RunStatus.holding] at hheld
        rw [hheld, List.append_nil] at heq
        exact .inr ⟨work, by rw [heq]; simp, hw, fun hno => absurd hs hno⟩
  | @breaks _ _ outcome ho =>
    cases outcome with
    | returned result => exact absurd rfl (ho result)
    | panicked | aborted => trivial

/-- Background writes add to the work of a run that is not on its way out. -/
theorem writes {a : Active} {n : Nat} {entries : Entries} (ht : Traced s (.active a) es)
    (ha : a.stage.result? = none) (hes : ∀ e ∈ es', e.IsOfWrite n entries) :
    Traced s (.active a) (es ++ es') := by
  obtain ⟨hwork, hheld, hcreate⟩ := Event.IsOfWrite.idle hes
  refine ht.calls nofun (.works (h := {}) ha nofun hwork ?_ ?_ fun e he => ?_)
  · rw [hheld]
    rfl
  · rw [hcreate, Nat.zero_add]
    exact Nat.le_refl _
  · rw [ha] at he
    cases he

end Traced

/-- A run that waits for a write is not on its way out. -/
theorem Stage.result?_of_waiting {stage : Stage} {n : Nat} (h : stage.standing = .waiting n) :
    stage.result? = none := by
  cases stage <;> first | rfl | cases h

namespace Host

variable {s : Setup} {r n : Nat} {h h' h₀ h₁ h₂ : Host} {st st' : RunStatus} {es : List Event}

/-- The events of every run have their shape. -/
structure AllTraced (s : Setup) (h : Host) : Prop where
  unasked : ∀ r, h.status? r = none → eventsOf r h.history = []
  traced : ∀ r st, h.status? r = some st → Traced s st (eventsOf r h.history).reverse

/-- Nothing has happened in a fresh host. -/
theorem Fresh.allTraced (hf : h.Fresh) : h.AllTraced s where
  unasked r _ := by rw [hf.history]; rfl
  traced r st hst := by rw [hf.status?] at hst; cases hst

/-- A move that is no step keeps the events in shape. -/
theorem AllTraced.rests (ht : h.AllTraced s) (hr : h.Rests h') : h'.AllTraced s where
  unasked r hst := by
    rw [hr.history]
    obtain heq | ⟨-, heq⟩ := hr.status r
    · exact ht.unasked r (heq ▸ hst)
    · rw [heq] at hst
      cases hst
  traced r st hst := by
    rw [hr.history]
    obtain heq | ⟨hnone, heq⟩ := hr.status r
    · exact ht.traced r st (heq ▸ hst)
    · obtain rfl := Option.some.inj (heq.symm.trans hst)
      rw [ht.unasked r hnone]
      rfl

/-- A turn of a write keeps the events in shape: its run waits for it, or broke off. -/
theorem AllTraced.write {write : Write} {status : WriteStatus} (ht : h.AllTraced s) (ho : h.Orderly)
    (hw : h.WriteTurns n write status es h') : h'.AllTraced s where
  unasked r hst := by
    rw [hw.status?] at hst
    by_cases hr : write.run = r
    · obtain ⟨a, ha, -⟩ | ⟨o, ho', -⟩ := ho.live n write hw.found hw.live
      · rw [hr, hst] at ha
        cases ha
      · rw [hr, hst] at ho'
        cases ho'
    · rw [hw.adds.eventsOf_of_ne hr]
      exact ht.unasked r hst
  traced r st hst := by
    rw [hw.status?] at hst
    by_cases hr : write.run = r
    · subst hr
      rw [hw.adds.eventsOf_self, List.reverse_append, List.reverse_reverse]
      obtain ⟨a, ha, hwait⟩ | ⟨o, ho', -, hret⟩ := ho.live n write hw.found hw.live
      · rw [hst, Option.some.injEq] at ha
        subst ha
        exact (ht.traced _ _ hst).writes (Stage.result?_of_waiting hwait) hw.events
      · rw [hst, Option.some.injEq] at ho'
        subst ho'
        cases o with
        | returned result => exact absurd rfl (hret result)
        | panicked | aborted => trivial
    · rw [hw.adds.eventsOf_of_ne hr]
      exact ht.traced r st hst

/-- A step of a run keeps the events in shape. -/
theorem AllTraced.act (ht : h.AllTraced s) (hst : h.status? r = some st)
    (hlive : ∀ o, st ≠ .ended o)
    (hact : h.Act s r st es st' h₁) : (h₁.setStatus r st').AllTraced s where
  unasked r' hnone := by
    change eventsOf r' h₁.history = []
    rw [hact.status? hst] at hnone
    split at hnone
    · cases hnone
    · rename_i hr
      rw [hact.adds.eventsOf_of_ne hr]
      exact ht.unasked r' hnone
  traced r' st'' hst'' := by
    change Traced s st'' (eventsOf r' h₁.history).reverse
    rw [hact.status? hst] at hst''
    split at hst''
    · rename_i hr
      obtain rfl := Option.some.inj hst''
      rw [← hr, hact.adds.eventsOf_self, List.reverse_append, List.reverse_reverse]
      exact (ht.traced r st hst).calls hlive hact.calls
    · rename_i hr
      rw [hact.adds.eventsOf_of_ne hr]
      exact ht.traced r' st'' hst''

/-- **The events of every run have their shape** in a host that was fresh. -/
theorem Reaches.allTraced (hf : h₀.Fresh) (hr : Reaches s h₀ h) : h.AllTraced s := by
  induction hr with
  | refl => exact hf.allTraced
  | tail hr hm ih =>
    exact hm.elim ih.rests (fun _ _ _ _ => ih.write (Reaches.orderly hf hr))
      fun _ _ _ _ _ _ hst hlive hact heq => heq ▸ ih.act hst hlive hact

/-! ### The failure that a run returns -/

/-- The first step of a run that fails. -/
theorem begin_fails {e : RunError} (hfails : RunStatus.requested.Fails s h e) :
    (h.begin s r).Leads fun st' _ => st'.result? = some (.error e) := by
  have started : h.lifecycle.isTaken = false → ∃ l, h.lifecycle.start? = some l := by
    intro hfree
    rw [Lifecycle.isTaken] at hfree
    rw [Lifecycle.start?]
    cases hs : h.lifecycle.state <;> rw [hs] at hfree <;> first | exact ⟨_, rfl⟩ | cases hfree
  cases hfails with
  | config hfree he =>
    obtain ⟨l, hl⟩ := started hfree
    simp only [begin, hl, he]
    rfl
  | unknownClass hfree hv hc =>
    obtain ⟨l, hl⟩ := started hfree
    simp only [begin, hl, hv, hc]
    rfl

/-- The step of a run at a stage that fails. -/
theorem step_fails {a : Active} {e : RunError} (hfails : (RunStatus.active a).Fails s h e) :
    (h.step s r a).Leads fun st' _ => st'.result? = some (.error e) := by
  cases hfails with
  | callOfStart ha he =>
    simp only [step, ha, startingStore, he]
    split
    · trivial
    · rfl
  | startStore ha hc he =>
    simp only [step, ha, startingStore, hc, he]
    split
    · trivial
    · rfl
  | startConnector ha he =>
    simp only [step, ha, startingConnector, he]
    rfl
  | noTaskConfig ha hc =>
    simp only [step, ha, creatingTask, hc]
    rfl
  | createTask ha hc he =>
    obtain ⟨properties, rest, hc⟩ := List.exists_cons_of_ne_nil hc
    simp only [step, ha, creatingTask, hc]
    have : a.connector.createError (Host.emit r (.askTaskConfigs 1) h).createCalls = some _ := he
    rw [this]
    rfl
  | startTask ha he =>
    simp only [step, ha, startingTask, he]
    rfl
  | keysToResume ha hs hps he =>
    simp only [step, ha, startingTask, hs, hps, he]
    rfl
  | callOfGet ha he =>
    simp only [step, ha, resuming, he]
    split
    · trivial
    · rfl
  | @poll _ e _ ha hi hf he =>
    simp only [step, ha, polling, hi, hf]
    cases e with
    | interrupted => exact absurd rfl he
    | noTaskConfig c | offset e | failed e => rfl
  | delivery ha hv =>
    simp only [step, ha, delivering, hv]
    rfl

/-- **A stage that fails decides what the run will return**, unless the run is dropped. -/
theorem fails_leads {e : RunError} (hfails : st.Fails s h e) (hst : h.status? r = some st)
    (hadv : h.advance s r = some h') :
    ∃ st', h'.status? r = some st' ∧ (st'.result? = some (.error e) ∨ st' = .ended .aborted) := by
  have weaken : ∀ {st₁ : RunStatus} {p : Progress},
      p.Leads (fun st' _ => st'.result? = some (.error e)) → h.Acts s r st₁ p →
      p.Leads fun st' h₁ => (st'.result? = some (.error e) ∨ st' = .ended .aborted) ∧
        ∃ es, h.Act s r st₁ es st' h₁ :=
    fun hp hacts => (hp.imp fun _ _ h => Or.inl h).and hacts
  obtain ⟨st₁, st', h₁, hst₁, ⟨hres, es, hact⟩, rfl⟩ := advance_leads
    (Q := fun st₁ st' h₁ => (st'.result? = some (.error e) ∨ st' = .ended .aborted) ∧
      ∃ es, h.Act s r st₁ es st' h₁)
    (fun hreq => weaken (begin_fails (Option.some.inj (hst.symm.trans hreq) ▸ hfails))
      (begin_acts s r h))
    (fun a ha => weaken (step_fails (Option.some.inj (hst.symm.trans ha) ▸ hfails))
      (step_acts s r a h))
    (fun st₁ _ => by
      refine Progress.Leads.and ?_ (dropRun_acts s r h st₁)
      cases st₁ with
      | requested | active a => exact .inr rfl
      | ended outcome => trivial) hadv
  exact ⟨st', by rw [hact.status? hst₁, if_pos rfl], hres⟩

/-- What a step does to what a run will return. -/
theorem result?_calls {e : RunError} (hc : Calls s h st es st') :
    (st.result? = some (.error e) →
      st'.result? = some (.error e) ∨ ∃ o, st' = .ended o ∧ ∀ result, o ≠ .returned result) ∧
    (st'.result? = some (.error e) → st.result? = some (.error e) ∨ st.Fails s h e) := by
  cases hc with
  | turnedAway => exact ⟨nofun, nofun⟩
  | works hst _ _ _ _ hfails =>
    rw [hst]
    exact ⟨nofun, fun hres => .inr (hfails e hres)⟩
  | releases ha hres =>
    simp only [RunStatus.result?, hres]
    exact ⟨.inl, .inl⟩
  | leaves ha =>
    simp only [RunStatus.result?, ha, Stage.result?]
    exact ⟨.inl, .inl⟩
  | fails hst _ _ hfails =>
    rw [hst]
    refine ⟨nofun, fun hres => .inr ?_⟩
    obtain rfl := Except.error.inj (Option.some.inj hres)
    exact hfails
  | breaks ho =>
    refine ⟨fun _ => .inr ⟨_, rfl, ho⟩, fun hres => ?_⟩
    rename_i outcome
    cases outcome with
    | returned result => exact absurd rfl (ho result)
    | panicked | aborted => cases hres

/-- Whether a run will return a failure, or breaks off before it can. -/
def WillFail (h : Host) (r : Nat) (e : RunError) : Prop :=
  ∃ st, h.status? r = some st ∧
    (st.result? = some (.error e) ∨ ∃ o, st = .ended o ∧ ∀ result, o ≠ .returned result)

/-- What a run will return is settled once a stage has failed. -/
theorem WillFail.move {e : RunError} (hw : h.WillFail r e) (hm : Move s h h') :
    h'.WillFail r e := by
  obtain ⟨st, hst, hres⟩ := hw
  refine hm.elim (fun hr => ⟨st, hr.status?_eq hst, hres⟩)
    (fun _ _ _ _ hw => ⟨st, (hw.status? r).trans hst, hres⟩) ?_
  intro r' st₁ es st₁' h₁ _ hst₁ hlive hact heq
  by_cases hr : r' = r
  · subst hr
    obtain rfl := Option.some.inj (hst₁.symm.trans hst)
    refine ⟨st₁', by rw [heq, hact.status? hst₁, if_pos rfl], ?_⟩
    rcases hres with hres | ⟨o, ho, -⟩
    · exact (result?_calls hact.calls).1 hres
    · exact absurd ho (hlive o)
  · exact ⟨st, by rw [heq, hact.status? hst₁, if_neg hr, hst], hres⟩

/-- A run that will return a failure, or broke off, does so after any moves. -/
theorem WillFail.reaches {e : RunError} (hw : h.WillFail r e) (hr : Reaches s h h') :
    h'.WillFail r e := by
  induction hr with
  | refl => exact hw
  | tail _ hm ih => exact ih.move hm

/-- Whether on the way from one host to another a stage of a run met a failure. -/
def FailedOn (s : Setup) (h₀ h : Host) (r : Nat) (e : RunError) : Prop :=
  ∃ h₁ h₂ st, Reaches s h₀ h₁ ∧ h₁.status? r = some st ∧ st.Fails s h₁ e ∧
    h₁.advance s r = some h₂ ∧ Reaches s h₂ h

/-- A run only returns a failure that one of its stages met. -/
theorem failedOn_of_result? (hf : h₀.Fresh) (hr : Reaches s h₀ h) {e : RunError}
    (hst : h.status? r = some st) (hres : st.result? = some (.error e)) : FailedOn s h₀ h r e := by
  induction hr generalizing st with
  | refl =>
    rw [hf.status?] at hst
    cases hst
  | @tail h h' hr hm ih =>
    have later : FailedOn s h₀ h r e → FailedOn s h₀ h' r e :=
      fun ⟨h₁, h₂, st, hr₁, hst, hfails, hadv, hr₂⟩ =>
      ⟨h₁, h₂, st, hr₁, hst, hfails, hadv, hr₂.tail hm⟩
    refine hm.elim (fun hrest => ?_) (fun _ _ _ _ hw => ?_) ?_
    · obtain heq | ⟨-, heq⟩ := hrest.status r
      · exact later (ih (heq ▸ hst) hres)
      · obtain rfl := Option.some.inj (heq.symm.trans hst)
        cases hres
    · exact later (ih ((hw.status? r).symm.trans hst) hres)
    · intro r' st₁ es st₁' h₁ hadv hst₁ _ hact heq
      rw [heq, hact.status? hst₁] at hst
      split at hst
      · rename_i hr'
        subst hr'
        obtain rfl := Option.some.inj hst
        rcases (result?_calls hact.calls).2 hres with hres | hfails
        · exact later (ih hst₁ hres)
        · exact ⟨h, h', st₁, hr, hst₁, hfails, hadv, .refl⟩
      · exact later (ih hst hres)

/-- **A run returns the failure that one of its stages met**, and no other. -/
theorem Reaches.failed_iff (hf : h₀.Fresh) (hr : Reaches s h₀ h) {result : RunResult}
    (hst : h.status? r = some (.ended (.returned result))) (e : RunError) :
    result = .error e ↔ FailedOn s h₀ h r e := by
  constructor
  · rintro rfl
    exact failedOn_of_result? hf hr hst rfl
  · rintro ⟨h₁, h₂, st, -, hst₁, hfails, hadv, hr₂⟩
    obtain ⟨st₂, hst₂, hres⟩ := fails_leads hfails hst₁ hadv
    have hw : h₂.WillFail r e := by
      refine ⟨st₂, hst₂, hres.imp_right fun h => ⟨.aborted, h, nofun⟩⟩
    obtain ⟨st', hst', hres'⟩ := hw.reaches hr₂
    obtain rfl := Option.some.inj (hst.symm.trans hst')
    rcases hres' with hres' | ⟨o, ho, hno⟩
    · exact Option.some.inj hres'
    · exact absurd (RunStatus.ended.inj ho).symm (hno result)

/-- **The cleanup of a run that returns.** Its events are its work, and then the hooks that give
back what the work took hold of, each once and the last first, and nothing after them but its end.
What it took hold of are its store, its connector and its task, in this order and as far as it came;
it created at most one task. If the configuration is not valid or the class not registered it did
nothing at all. It returns a failure exactly if one of its stages met that failure. -/
theorem Reaches.cleans_up (hf : h₀.Fresh) (hr : Reaches s h₀ h) {result : RunResult}
    (hst : h.status? r = some (.ended (.returned result)))
    (hacc : .accepted ∈ eventsOf r h.history) :
    (∃ work, (eventsOf r h.history).reverse =
        work ++ (heldBy work).reverse.map Held.release ++ closing result ∧
      work.all Event.isWork = true ∧ heldBy work <+: [.store, .connector, .task] ∧
      creations work ≤ 1 ∧ (¬ s.IsSound → work = [.accepted])) ∧
    ∀ e, result = .error e ↔ FailedOn s h₀ h r e := by
  refine ⟨?_, Reaches.failed_iff hf hr hst⟩
  rcases (Reaches.allTraced hf hr).traced r _ hst with ⟨hnone, -⟩ | ⟨work, heq, hw, hsound⟩
  · rw [List.reverse_eq_nil_iff.mp hnone] at hacc
    cases hacc
  · exact ⟨work, heq, hw.isWork, hw.inOrder, hw.created, hsound⟩

/-- A poll fails: task, connector and store are stopped, and the failure is returned. -/
theorem cleans_up_after_poll :
    let s : Setup :=
      { config := { name := "engine", connectorClass := "source", flushTimeout := 5000
                    keyConverter := .json, valueConverter := .json, properties := [] }
        registry := Registry.empty.register "source" {}
        consumer := fun _ => {} }
    let h₀ : Host := { feed := [.fails (.failed { shown := "gone" })] }
    let h := h₀.request.runOn s 0 12
    ∃ work, (eventsOf 0 h.history).reverse =
      work ++ (heldBy work).reverse.map Held.release ++
        [.notice .runFailed,
          .ended (.returned (.error (.task (.failed { shown := "gone" }))))] := by
  intro s h₀ h
  have hf : h₀.Fresh := ⟨rfl, rfl, rfl, rfl⟩
  have hr : Reaches s h₀ h := Reaches.runOn (.tail .refl .request) 0 12
  have hst : h.status? 0 =
      some (.ended (.returned (.error (.task (.failed { shown := "gone" }))))) := rfl
  have hacc : .accepted ∈ eventsOf 0 h.history := List.mem_of_getElem? (i := 17) rfl
  obtain ⟨⟨work, heq, -⟩, -⟩ := Reaches.cleans_up hf hr hst hacc
  exact ⟨work, heq⟩

end Host

end ChangeCapture
