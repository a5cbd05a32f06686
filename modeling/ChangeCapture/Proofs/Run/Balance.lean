import ChangeCapture.Proofs.Run.Meters
import ChangeCapture.Proofs.Run.Resume

/-!
# The balance of flushes

Each time the policy agrees while positions are pending, one flush is begun, and it is counted once:
as confirmed, or as failed. A policy that declines, or that agrees while nothing is pending, counts
nothing. The counters of a run begin anew exactly where a flush is confirmed, so each record that
was delivered is covered by one confirmed flush, or it is among those that the run still counts.

## Main definitions

* `demandedFlushes`: the consultations that call for a flush.
* `coveredRecords`: the records that confirmed flushes cover.
* `Balances`: the two balances of a run.

## Main results

* `Host.Counts.balances` — one step keeps the balances.
* `Host.Reaches.confirms_or_keeps` — the counters begin anew exactly where a flush is confirmed.
* `Host.Reaches.balances_flushes` — the balance of all runs, and what the metrics show of it.
-/

namespace ChangeCapture

/-! ### Sums over the events of a run -/

/-- **How often the policy has called for a flush**: it agreed while positions were pending. Given
are the events of a run, the newest first. -/
def demandedFlushes : List Event → Nat
  | [] => 0
  | .consulted _ _ fired :: older =>
    demandedFlushes older + (if fired && !(deliveredSince older).isEmpty then 1 else 0)
  | _ :: older => demandedFlushes older

/-- **How many records the confirmed flushes of a run cover**: at each of them, those delivered
since the one before. -/
def coveredRecords : List Event → Nat
  | [] => 0
  | .committed _ :: older => coveredRecords older + recordsSince older
  | _ :: older => coveredRecords older

/-- Whether an event has no part in the balances. -/
def Event.isNeutral : Event → Bool
  | .loopBegun | .delivered _ | .consulted _ _ _ | .committed _ | .givenUp _ => false
  | _ => true

/-- Uncounted events have no part in the balances. -/
theorem Event.isNeutral_uncounted {es : List Event} (h : es.all Event.isUncounted = true) :
    es.all Event.isNeutral = true := by
  refine List.all_eq_true.mpr fun e he => ?_
  have huncounted := List.all_eq_true.mp h e he
  cases e <;> first | rfl | cases huncounted

/-- Events without a part in the balances call for no flush. -/
theorem demandedFlushes_neutrals {es' : List Event} (h : es'.all Event.isNeutral = true)
    (es : List Event) : demandedFlushes (es' ++ es) = demandedFlushes es := by
  induction es' with
  | nil => rfl
  | cons e es' ih =>
    rw [List.all_cons, Bool.and_eq_true] at h
    rw [← ih h.2]
    cases e <;> first | rfl | cases h.1

/-- The probes of a policy have no part in the balances, and neither do they change what is owed. -/
theorem isNeutral_probes (probes : List (String × Bool)) :
    (probes.map fun p => Event.probed p.1 p.2).reverse.all Event.isNeutral = true ∧
      (probes.map fun p => Event.probed p.1 p.2).reverse.all Event.owesNothing = true := by
  simp [Event.isNeutral, Event.owesNothing]

/-- **A consulted policy calls for a flush** if it agrees while positions are pending. -/
theorem demandedFlushes_consultation (s : Setup) (now : Nat) (a : Active) (es : List Event) :
    demandedFlushes ((consultation s now a).reverse ++ es) = demandedFlushes es +
      (if s.policy.fires a.records (now - a.lastCommit) = true ∧ deliveredSince es ≠ [] then 1
        else 0) := by
  obtain ⟨hneutral, howes⟩ := isNeutral_probes (s.policy.probes a.records (now - a.lastCommit))
  rw [consultation, List.reverse_append, List.append_assoc, List.reverse_singleton,
    List.singleton_append, demandedFlushes, demandedFlushes_neutrals hneutral,
    deliveredSince_owesNothing howes]
  simp

/-- How many flushes are waited for at a stage. -/
def Stage.awaiting : Stage → Nat
  | .flushing _ _ _ => 1
  | _ => 0

/-- How many flushes a run waits for. -/
def RunStatus.awaiting : RunStatus → Nat
  | .active a => a.stage.awaiting
  | .requested | .ended _ => 0

/-- A run that does not commit waits for no flush. -/
theorem Stage.awaiting_of_isCommitting {stage : Stage} (h : stage.isCommitting = false) :
    stage.awaiting = 0 := by
  cases stage <;> first | rfl | cases h

/-- After a commit, or after none, a run waits for no flush. -/
theorem Host.awaiting_afterCommit (a : Active) (final : Bool) :
    (afterCommit a final).stage.awaiting = 0 := by
  cases final <;> rfl

/-- After a commit, or after none, a run has come to its loop. -/
theorem Host.phase_afterCommit_ne (a : Active) (final : Bool) :
    (afterCommit a final).stage.phase ≠ .startUp := by
  cases final <;> rintro ⟨⟩

/-- **The balances of a run.** Unless it was dropped, each flush that was called for is confirmed,
failed or waited for. Each record that was delivered is covered by a confirmed flush, or it was
delivered since the last of them; and these the run counts, from where its loop has begun. -/
structure Balances (st : RunStatus) (es : List Event) : Prop where
  flushes : .ended .aborted ∉ es → demandedFlushes es =
    addedTo .flushesCommitted es + addedTo .flushesFailed es + st.awaiting
  records : coveredRecords es + recordsSince es = addedTo .recordsDelivered es
  early : ∀ a, st = .active a → a.stage.phase = .startUp → .loopBegun ∉ es ∧ recordsSince es = 0
  counter : ∀ a, st = .active a → .loopBegun ∈ es → a.records = recordsSince es

namespace Balances

variable {st st' : RunStatus} {es es' : List Event} {a a' : Active}

/-- A run begins with nothing. -/
theorem nil (h : st.awaiting = 0) : Balances st [] where
  flushes _ := by rw [h]; rfl
  records := rfl
  early _ _ _ := ⟨nofun, rfl⟩
  counter _ _ hm := nomatch hm

/-- An event without a part in the balances. -/
theorem neutral (h : Balances st es) {e : Event} (he : e.isNeutral = true) :
    Balances st (e :: es) := by
  have hadds : ∀ c, addedTo c (e :: es) = addedTo c es := by
    intro c
    have hzero : e.adds c = 0 := by
      cases e <;> first | (cases c <;> rfl) | cases he
    rw [addedTo, hzero, Nat.zero_add]
  have hdemanded : demandedFlushes (e :: es) = demandedFlushes es := by
    cases e <;> first | rfl | cases he
  have hcovered : coveredRecords (e :: es) = coveredRecords es := by
    cases e <;> first | rfl | cases he
  have hsince : recordsSince (e :: es) = recordsSince es := by
    cases e <;> first | rfl | cases he
  have hbegun : .loopBegun ∈ e :: es ↔ .loopBegun ∈ es := by
    rw [List.mem_cons, or_iff_right]
    rintro rfl
    cases he
  refine ⟨fun hno => ?_, ?_, fun a ha hp => ?_, fun a ha hm => ?_⟩
  · rw [hdemanded, hadds, hadds]
    exact h.flushes fun hm => hno (List.mem_cons_of_mem _ hm)
  · rw [hcovered, hsince, hadds]
    exact h.records
  · rw [hbegun, hsince]
    exact h.early a ha hp
  · rw [hsince]
    exact h.counter a ha (hbegun.mp hm)

/-- Events without a part in the balances. -/
theorem neutrals (h : Balances st es) (hes : es'.all Event.isNeutral = true) :
    Balances st (es'.reverse ++ es) := by
  induction es' generalizing es with
  | nil => exact h
  | cons e es' ih =>
    rw [List.all_cons, Bool.and_eq_true] at hes
    rw [List.reverse_cons, List.append_assoc]
    exact ih (h.neutral hes.1) hes.2

/-- A run goes on that waits for as many flushes as before and counts the same. -/
theorem goesOn (h : Balances (.active a) es) (hawaiting : a'.stage.awaiting = a.stage.awaiting)
    (hrecords : a'.records = a.records)
    (hphase : a'.stage.phase = .startUp → a.stage.phase = .startUp) : Balances (.active a') es where
  flushes hno := (h.flushes hno).trans (congrArg _ hawaiting.symm)
  records := h.records
  early := by
    rintro _ ⟨⟩ hp
    exact h.early a rfl (hphase hp)
  counter := by
    rintro _ ⟨⟩ hm
    rw [hrecords]
    exact h.counter a rfl hm

/-- A run ends that waits for no flush. -/
theorem ends (h : Balances (.active a) es) (hawaiting : a.stage.awaiting = 0) (outcome : RunEnd) :
    Balances (.ended outcome) es where
  flushes hno := (h.flushes hno).trans (congrArg _ hawaiting)
  records := h.records
  early := by rintro _ ⟨⟩
  counter := by rintro _ ⟨⟩

/-- A run is dropped, whatever it waits for. -/
theorem drops (h : Balances (.active a) es) (outcome : RunEnd) :
    Balances (.ended outcome) (.ended .aborted :: es) where
  flushes hno := absurd List.mem_cons_self hno
  records := (h.neutral (e := .ended .aborted) rfl).records
  early := by rintro _ ⟨⟩
  counter := by rintro _ ⟨⟩

/-- The loop of a run begins, and with it what the run counts. -/
theorem begins (h : Balances (.active a) es) (ha : a.stage.phase = .startUp)
    (ha' : a'.stage = .looping) (hrecords : a'.records = 0) :
    Balances (.active a') (.loopBegun :: es) where
  flushes hno := by
    have hawaiting : a.stage.awaiting = 0 :=
      Stage.awaiting_of_isCommitting (Stage.isCommitting_of_phase (by rw [ha]; nofun)
        (by rw [ha]; nofun))
    have hold := h.flushes fun hm => hno (List.mem_cons_of_mem _ hm)
    have hawaiting' : a'.stage.awaiting = 0 := by rw [ha']; rfl
    simpa only [RunStatus.awaiting, hawaiting, hawaiting', demandedFlushes, addedTo,
      Event.adds, Nat.zero_add] using hold
  records := by
    have hold := h.records
    rw [(h.early a rfl ha).2] at hold
    simpa only [coveredRecords, recordsSince, addedTo, Event.adds, Nat.zero_add] using hold
  early := by
    rintro _ ⟨⟩ hp
    rw [ha'] at hp
    cases hp
  counter := by
    rintro _ ⟨⟩ -
    exact hrecords

/-- A batch is delivered. -/
theorem delivers {batch : List Record} (h : Balances (.active a) es)
    (ha : a.stage = .delivering [] batch) (ha' : a'.stage = .consulting false)
    (hrecords : a'.records = a.records + batch.length) :
    Balances (.active a') (.delivered batch :: es) where
  flushes hno := by
    have hold := h.flushes fun hm => hno (List.mem_cons_of_mem _ hm)
    simpa only [RunStatus.awaiting, ha, ha', Stage.awaiting, demandedFlushes, addedTo,
      Event.adds, Nat.zero_add] using hold
  records := by
    have hold := h.records
    simp only [coveredRecords, recordsSince, addedTo, Event.adds] at hold ⊢
    omega
  early := by
    rintro _ ⟨⟩ hp
    rw [ha'] at hp
    cases hp
  counter := by
    rintro _ ⟨⟩ hm
    rw [hrecords, h.counter a rfl (by simpa using hm)]
    rfl

/-- The policy is consulted, and a flush waited for if it was called for. -/
theorem consults {records elapsed : Nat} {fired : Bool} (h : Balances (.active a) es)
    (hawaiting : a'.stage.awaiting = a.stage.awaiting +
      (if fired && !(deliveredSince es).isEmpty then 1 else 0))
    (hrecords : a'.records = a.records) (hphase : a'.stage.phase ≠ .startUp) :
    Balances (.active a') (.consulted records elapsed fired :: es) where
  flushes hno := by
    have hold := h.flushes fun hm => hno (List.mem_cons_of_mem _ hm)
    simp only [RunStatus.awaiting, hawaiting, demandedFlushes, addedTo,
      Event.adds] at hold ⊢
    omega
  records := by
    have hold := h.records
    simpa only [coveredRecords, recordsSince, addedTo, Event.adds, Nat.zero_add] using hold
  early := by
    rintro _ ⟨⟩ hp
    exact absurd hp hphase
  counter := by
    rintro _ ⟨⟩ hm
    rw [hrecords]
    exact h.counter a rfl (by simpa using hm)

/-- A flush is confirmed. -/
theorem commits {n : Nat} (h : Balances (.active a) es) (ha : a.stage.awaiting = 1)
    (ha' : a'.stage.awaiting = 0) (hphase : a'.stage.phase ≠ .startUp) (hrecords : a'.records = 0) :
    Balances (.active a') (.committed n :: es) where
  flushes hno := by
    have hold := h.flushes fun hm => hno (List.mem_cons_of_mem _ hm)
    simp only [RunStatus.awaiting, ha, ha', demandedFlushes, addedTo, Event.adds] at hold ⊢
    omega
  records := by
    have hold := h.records
    simp only [coveredRecords, recordsSince, addedTo, Event.adds] at hold ⊢
    omega
  early := by
    rintro _ ⟨⟩ hp
    exact absurd hp hphase
  counter := by
    rintro _ ⟨⟩ -
    exact hrecords

/-- A flush is given up. -/
theorem givesUp {n : Nat} (h : Balances (.active a) es) (ha : a.stage.awaiting = 1)
    (ha' : a'.stage.awaiting = 0) (hphase : a'.stage.phase ≠ .startUp)
    (hrecords : a'.records = a.records) : Balances (.active a') (.givenUp n :: es) where
  flushes hno := by
    have hold := h.flushes fun hm => hno (List.mem_cons_of_mem _ hm)
    simp only [RunStatus.awaiting, ha, ha', demandedFlushes, addedTo, Event.adds] at hold ⊢
    omega
  records := by
    have hold := h.records
    simpa only [coveredRecords, recordsSince, addedTo, Event.adds, Nat.zero_add] using hold
  early := by
    rintro _ ⟨⟩ hp
    exact absurd hp hphase
  counter := by
    rintro _ ⟨⟩ hm
    rw [hrecords]
    exact h.counter a rfl (by simpa using hm)

end Balances

namespace Host

variable {s : Setup} {r : Nat} {h h' h₀ : Host} {a a' : Active} {es : List Event}
  {st st' : RunStatus}

/-! ### One step -/

/-- Nothing calls for a flush where nothing could be submitted. -/
theorem not_called {final fires : Bool} (hl : Ledger s h.writes a es)
    (ha : a.stage = .consulting final)
    (hno : fires = true → ∀ w flushId entries, a.writer.beginFlush = .ok (some w) →
      w.submit.1 ≠ .submitted flushId entries) : ¬ (fires = true ∧ deliveredSince es ≠ []) := by
  rintro ⟨hfires, howed⟩
  obtain ⟨w, hbegin, hsubmit⟩ :=
    hl.submits (by rw [ha]; rfl) (owedPositions_eq_nil_iff.not.mpr howed)
  exact hno hfires w _ _ hbegin hsubmit

/-- Positions are pending exactly if the run owes any. -/
theorem pending_ne_nil_iff {final : Bool} (hl : Ledger s h.writes a es)
    (ha : a.stage = .consulting final) : a.writer.pending ≠ [] ↔ deliveredSince es ≠ [] := by
  rw [(hl.settled (by rw [ha]; rfl)).2, ne_eq, owedPositions_eq_nil_iff]

/-- **One step keeps the balances** of a run whose books are in order. -/
theorem Counts.balances (hc : Counts s h (.active a) es st')
    (hl : Ledger s h.writes a (eventsOf r h.history))
    (hb : Balances (.active a) (eventsOf r h.history)) :
    Balances st' (es.reverse ++ eventsOf r h.history) := by
  obtain ⟨hneutral, howes⟩ := isNeutral_probes (s.policy.probes a.records (h.now - a.lastCommit))
  have hasked := hb.neutrals (List.all_reverse.symm.trans hneutral)
  have hsince := deliveredSince_owesNothing howes (eventsOf r h.history)
  cases hc with
  | @ends _ _ outcome hes hdrop =>
    cases hcommit : a.stage.isCommitting with
    | true =>
      rw [hdrop a rfl hcommit]
      exact hb.drops outcome
    | false =>
      exact (hb.ends (Stage.awaiting_of_isCommitting hcommit) outcome).neutrals
        (Event.isNeutral_uncounted hes)
  | keeps hes ha ha' hphase hcounts =>
    refine (hb.goesOn ?_ hcounts.records fun hp => ?_).neutrals (Event.isNeutral_uncounted hes)
    · rw [Stage.awaiting_of_isCommitting ha, Stage.awaiting_of_isCommitting ha']
    · rcases hphase with heq | ⟨-, result, heq, -⟩
      · rw [← heq, hp]
      · cases hp.symm.trans heq
  | begins hes ha ha' hr =>
    rw [List.reverse_append]
    exact (hb.neutrals (Event.isNeutral_uncounted hes)).begins ha ha' hr
  | delivers ha ha' hr => exact hb.delivers ha ha' hr
  | heeds hes ha ha' hcounts =>
    refine Balances.neutrals (hb.goesOn ?_ hcounts.records fun hp => ?_) ?_
    · rw [ha']
      rcases ha with ha | ha <;> rw [ha] <;> rfl
    · rw [ha'] at hp
      cases hp
    · rw [List.all_append, Event.isNeutral_uncounted hes]
      rfl
  | @skips _ _ es final ha hno hes ha' hcounts =>
    rw [consultation, List.reverse_append, List.reverse_append, List.append_assoc]
    refine Balances.neutrals (hasked.consults ?_ hcounts.records ?_)
      (Event.isNeutral_uncounted hes)
    · have hno := not_called hl ha hno
      rw [ha', awaiting_afterCommit, ha, hsince, if_neg (by simpa using hno)]
      rfl
    · rw [ha']
      exact phase_afterCommit_ne a final
  | @submits _ _ w flushId deadline entries final ha hfires hbegin hsubmit ha' hcounts =>
    rw [consultation, List.reverse_append, List.reverse_append, List.append_assoc]
    refine Balances.neutral (hasked.consults ?_ hcounts.records ?_) rfl
    · have howed := (pending_ne_nil_iff hl ha).mp (OffsetWriter.beginFlush_eq_ok_some hbegin).2.1
      rw [ha', ha, hsince, if_pos (by simp [hfires, howed])]
      rfl
    · rw [ha']
      cases final <;> rintro ⟨⟩
  | @commits _ _ es n deadline final ha hes ha' hr =>
    rw [List.reverse_append]
    refine (hb.neutrals (Event.isNeutral_uncounted hes)).commits (by rw [ha]; rfl) ?_ ?_ hr
    · rw [ha', awaiting_afterCommit]
    · rw [ha']
      exact phase_afterCommit_ne a final
  | @givesUp _ _ why n deadline final ha ha' hcounts =>
    refine (hb.neutral (e := .notice why) rfl).givesUp (by rw [ha]; rfl) ?_ ?_ hcounts.records
    · rw [ha', awaiting_afterCommit]
    · rw [ha']
      exact phase_afterCommit_ne a final

/-- What a step counts of a run that goes on. -/
theorem exists_counts (hst : h.status? r = some (.active a)) (hadv : h.advance s r = some h')
    (hst' : h'.status? r = some (.active a')) :
    ∃ es, Counts s h (.active a) es (.active a') ∧
      eventsOf r h'.history = es.reverse ++ eventsOf r h.history := by
  obtain ⟨st, es, st', h₁, hst₁, hadds, hc, rfl⟩ := advance_counts hadv
  obtain rfl := Option.some.inj (hst.symm.trans hst₁)
  rw [hadds.status?_setStatus hst₁, if_pos rfl] at hst'
  obtain rfl := Option.some.inj hst'
  exact ⟨es, hc, hadds.eventsOf_self⟩

/-! ### Every host -/

/-- **The balances of every run** are kept. -/
theorem Reaches.balances (hf : h₀.Fresh) (hr : Reaches s h₀ h) (hst : h.status? r = some st) :
    Balances st (eventsOf r h.history) := by
  by_cases hreq : st = .requested
  · subst hreq
    rw [List.reverse_eq_nil_iff.mp ((Reaches.allTraced hf hr).traced r _ hst)]
    exact Balances.nil rfl
  · refine Reaches.counted (P := fun _ st es => Balances st es) hf (fun _ hc => ?_)
      (fun _ hb => hb) (fun _ hes hb => ?_) (fun hr' hst' hc hb => ?_) hr hst hreq
    · have first : ∀ {es : List Event} {st' : RunStatus}, st'.awaiting = 0 →
          es.all Event.isUncounted = true → Balances st' es.reverse := by
        intro es st' hawaiting hes
        have hb := (Balances.nil hawaiting).neutrals (Event.isNeutral_uncounted hes)
        rwa [List.append_nil] at hb
      cases hc with
      | starts hes ha' =>
        refine first (Stage.awaiting_of_isCommitting ?_) hes
        exact Stage.isCommitting_of_phase (by rw [ha']; nofun) (by rw [ha']; nofun)
      | ends hes => exact first rfl hes
    · rename_i es' hwrites
      rw [← List.reverse_reverse es']
      refine hb.neutrals (List.all_eq_true.mpr fun e he => ?_)
      obtain ⟨n, entries, rfl | ⟨_, rfl⟩ | rfl⟩ := hes e (List.mem_reverse.mp he) <;> rfl
    · exact hc.balances ((Reaches.booked hf hr').ledger _ _ hst') hb

/-- A run that waits for no write waits for no flush. -/
theorem awaiting_eq_zero (hst : h.status? r = some st) (hno : ∀ n, ¬ h.Awaits r n) :
    st.awaiting = 0 := by
  cases st with
  | requested | ended outcome => rfl
  | active a =>
    rw [RunStatus.awaiting]
    cases ha : a.stage with
    | flushing n deadline final => exact absurd ⟨a, hst, by rw [ha]; rfl⟩ (hno n)
    | _ => rfl

/-- **What a consulted policy changes in the metrics**: nothing. If it agrees while positions are
pending, a flush is called for, and waited for from now on; otherwise none is. -/
theorem Reaches.consults_meters {final : Bool} (hf : h₀.Fresh) (hr : Reaches s h₀ h)
    (hst : h.status? r = some (.active a)) (ha : a.stage = .consulting final)
    (hab : h.isAborting r = false) :
    h.GoesOn s r fun a' h' => h'.metrics = h.metrics ∧ a.CountsAs a' ∧
      ((s.policy.fires a.records (h.now - a.lastCommit) = true ∧ a.writer.pending ≠ []) ∧
          demandedFlushes (eventsOf r h'.history) = demandedFlushes (eventsOf r h.history) + 1 ∧
          a'.stage.awaiting = 1 ∨
        ¬ (s.policy.fires a.records (h.now - a.lastCommit) = true ∧ a.writer.pending ≠ []) ∧
          demandedFlushes (eventsOf r h'.history) = demandedFlushes (eventsOf r h.history) ∧
          a'.stage = (afterCommit a final).stage) := by
  have hl := (Reaches.booked hf hr).ledger r a hst
  obtain ⟨-, a', h', hadv, hst', hbegins⟩ := (Reaches.settles_in_time hf hr hst hab).1 final ha
  obtain ⟨es, hc, hevents⟩ := exists_counts hst hadv hst'
  have hmetrics : h'.metrics = h.metrics := by
    cases hbegins with
    | passes _ _ _ hmetrics => exact hmetrics
    | refuses _ hbegin hsubmit =>
      rw [Ledger.submit_of_beginFlush hl.format hbegin] at hsubmit
      cases hsubmit
    | submits _ _ _ _ hmetrics => exact hmetrics
  have hpending := pending_ne_nil_iff hl ha
  refine ⟨a', h', hadv, hst', hmetrics, ?_⟩
  rw [hevents, hpending]
  cases hc with
  | keeps _ hs | delivers hs | commits hs | givesUp hs =>
    rw [ha] at hs
    cases hs
  | begins _ hs =>
    rw [ha] at hs
    cases final <;> cases hs
  | heeds _ hs =>
    rw [ha] at hs
    rcases hs with hs | hs <;> cases hs
  | @skips _ _ es _ hs hno hes hs' hcounts =>
    obtain rfl := Stage.consulting.inj (ha.symm.trans hs)
    have hneutral : es.reverse.all Event.isNeutral = true :=
      List.all_reverse.trans (Event.isNeutral_uncounted hes)
    have hno := not_called hl ha hno
    refine ⟨hcounts, .inr ⟨hno, ?_, hs'⟩⟩
    rw [List.reverse_append, List.append_assoc, demandedFlushes_neutrals hneutral,
      demandedFlushes_consultation, if_neg hno, Nat.add_zero]
  | submits hs hfires hbegin hsubmit hs' hcounts =>
    obtain rfl := Stage.consulting.inj (ha.symm.trans hs)
    have howed := hpending.mp (OffsetWriter.beginFlush_eq_ok_some hbegin).2.1
    refine ⟨hcounts, .inl ⟨⟨hfires, howed⟩, ?_, by rw [hs']; rfl⟩⟩
    rw [List.reverse_append, List.append_assoc, List.reverse_singleton, List.singleton_append]
    exact (demandedFlushes_consultation ..).trans (congrArg _ (if_pos ⟨hfires, howed⟩))

/-- **A run counts anew exactly where a flush is confirmed**: its completion is accepted, and it is
counted as confirmed. No other step of a run in its loop confirms anything or counts anew. -/
theorem Reaches.confirms_or_keeps (hf : h₀.Fresh) (hr : Reaches s h₀ h)
    (hst : h.status? r = some (.active a)) (hadv : h.advance s r = some h')
    (hst' : h'.status? r = some (.active a')) :
    (∃ n flushId final, Confirms r n flushId final a a' h h') ∨
      addedTo .flushesCommitted (eventsOf r h'.history) =
          addedTo .flushesCommitted (eventsOf r h.history) ∧
        (a.stage.phase ≠ .startUp → a.records ≤ a'.records ∧ a'.lastCommit = a.lastCommit) := by
  obtain ⟨es, hc, hevents⟩ := exists_counts hst hadv hst'
  rw [hevents, addedTo_reverse_append]
  have keeps : ∀ {es : List Event}, es.all Event.isUnmetered = true → a.CountsAs a' →
      addedTo .flushesCommitted es + addedTo .flushesCommitted (eventsOf r h.history) =
          addedTo .flushesCommitted (eventsOf r h.history) ∧
        (a.stage.phase ≠ .startUp → a.records ≤ a'.records ∧ a'.lastCommit = a.lastCommit) :=
    fun hes hcounts => ⟨by rw [addedTo_unmetered hes, Nat.zero_add], fun _ =>
      ⟨Nat.le_of_eq hcounts.records.symm, hcounts.lastCommit⟩⟩
  have hasked : (consultation s h.now a).all Event.isUnmetered = true := by
    simp [consultation, Event.isUnmetered]
  cases hc with
  | keeps hes _ _ _ hcounts => exact .inr (keeps (Event.isUnmetered_uncounted hes) hcounts)
  | begins hes ha =>
    refine .inr ⟨?_, fun hne => absurd ha hne⟩
    rw [addedTo_unmetered, Nat.zero_add]
    rw [List.all_append, Event.isUnmetered_uncounted hes]
    rfl
  | delivers _ _ hrecords hl =>
    refine .inr ⟨Nat.zero_add _, fun _ => ⟨?_, hl⟩⟩
    rw [hrecords]
    exact Nat.le_add_right _ _
  | heeds hes _ _ hcounts =>
    refine .inr (keeps ?_ hcounts)
    rw [List.all_append, Event.isUnmetered_uncounted hes]
    rfl
  | skips _ _ hes _ hcounts =>
    refine .inr (keeps ?_ hcounts)
    rw [List.all_append, hasked, Event.isUnmetered_uncounted hes]
    rfl
  | submits _ _ _ _ _ hcounts =>
    refine .inr (keeps ?_ hcounts)
    rw [List.all_append, hasked]
    rfl
  | givesUp _ _ hcounts =>
    exact .inr ⟨Nat.zero_add _, fun _ => ⟨Nat.le_of_eq hcounts.records.symm, hcounts.lastCommit⟩⟩
  | @commits _ _ es n deadline final ha =>
    have hab : h.isAborting r = false := by
      refine Bool.eq_false_iff.mpr fun hab => ?_
      cases hst'.symm.trans (status?_of_isAborting hab hst hadv)
    -- What was added is a confirmed flush, so no flush was given up.
    have kept : ∀ {why}, ¬ h.GoesOn s r fun a' h' => GivesUp s r n why final a a' h h' := by
      rintro why ⟨b, h₂, hadv₂, -, hgives⟩
      obtain rfl := Option.some.inj (hadv.symm.trans hadv₂)
      rw [hgives.history] at hevents
      simp [eventsOf] at hevents
    obtain ⟨w, -, -, hsettles⟩ := Reaches.settles_waiting hf hr hst hab ha
    cases hi : h.lifecycle.interrupted with
    | true => exact absurd (hsettles.interrupted hi) kept
    | false =>
      cases hres : w.result? with
      | none =>
        by_cases hdue : deadline ≤ h.now
        · exact absurd (hsettles.timedOut hi hres hdue) kept
        · cases hadv.symm.trans (hsettles.waits hi hres (Nat.lt_of_not_le hdue))
      | some error =>
        cases error with
        | some e => exact absurd (hsettles.failed hi e hres) kept
        | none =>
          obtain ⟨b, h₂, hadv₂, hst₂, hconfirms⟩ := hsettles.succeeded hi hres
          obtain rfl := Option.some.inj (hadv.symm.trans hadv₂)
          obtain rfl := RunStatus.active.inj (Option.some.inj (hst'.symm.trans hst₂))
          exact .inl ⟨n, _, final, hconfirms⟩

/-- **The balance of flushes.** The counters have grown by the flushes that the runs confirmed and
gave up. While all runs that are over have returned and none waits for a flush, these are as many as
the times that the policy agreed while positions were pending. A consultation changes no metric, and
unless it calls for a flush nothing comes of it. A run counts anew exactly where a flush is
confirmed, with an accepted completion. Of each run, the records that confirmed flushes cover, and
those that it has delivered since, are all records of its batches; and these it counts. -/
theorem Reaches.balances_flushes (hf : h₀.Fresh) (hr : Reaches s h₀ h) {m₀ : Metrics}
    (hm : h₀.metrics = some m₀) :
    (∃ m, h.metrics = some m ∧
      Grew m₀.flushesCommitted (h.total (addedTo .flushesCommitted)) m.flushesCommitted ∧
      Grew m₀.flushesFailed (h.total (addedTo .flushesFailed)) m.flushesFailed) ∧
    (AllReturned h.history → (∀ r n, ¬ h.Awaits r n) →
      h.total (addedTo .flushesCommitted) + h.total (addedTo .flushesFailed) =
        h.total demandedFlushes) ∧
    (∀ r a final, h.status? r = some (.active a) → a.stage = .consulting final →
      h.isAborting r = false →
      h.GoesOn s r fun a' h' => h'.metrics = h.metrics ∧ a.CountsAs a' ∧
        ((s.policy.fires a.records (h.now - a.lastCommit) = true ∧ a.writer.pending ≠ []) ∧
            demandedFlushes (eventsOf r h'.history) = demandedFlushes (eventsOf r h.history) + 1 ∧
            a'.stage.awaiting = 1 ∨
          ¬ (s.policy.fires a.records (h.now - a.lastCommit) = true ∧ a.writer.pending ≠ []) ∧
            demandedFlushes (eventsOf r h'.history) = demandedFlushes (eventsOf r h.history) ∧
            a'.stage = (afterCommit a final).stage)) ∧
    (∀ r a a' h', h.status? r = some (.active a) → h.advance s r = some h' →
      h'.status? r = some (.active a') →
      (∃ n flushId final, Confirms r n flushId final a a' h h') ∨
        addedTo .flushesCommitted (eventsOf r h'.history) =
            addedTo .flushesCommitted (eventsOf r h.history) ∧
          (a.stage.phase ≠ .startUp → a.records ≤ a'.records ∧ a'.lastCommit = a.lastCommit)) ∧
    ∀ r st, h.status? r = some st →
      coveredRecords (eventsOf r h.history) + recordsSince (eventsOf r h.history) =
          addedTo .recordsDelivered (eventsOf r h.history) ∧
        ∀ a, st = .active a → .loopBegun ∈ eventsOf r h.history →
          a.records = recordsSince (eventsOf r h.history) := by
  obtain ⟨m, hmetrics, -, hgrew⟩ := Reaches.counters hf hr hm
  refine ⟨⟨m, hmetrics, hgrew .flushesCommitted, hgrew .flushesFailed⟩, fun hall hno => ?_,
    fun r a final hst ha hab => Reaches.consults_meters hf hr hst ha hab,
    fun r a a' h' hst hadv hst' => Reaches.confirms_or_keeps hf hr hst hadv hst',
    fun r st hst => ?_⟩
  · rw [total, total, total, ← Finset.sum_add_distrib]
    refine Finset.sum_congr rfl fun r hlt => ?_
    obtain ⟨st, hst⟩ : ∃ st, h.status? r = some st := by
      rw [status?, List.getElem?_eq_getElem (Finset.mem_range.mp hlt)]
      exact ⟨_, rfl⟩
    have hreturned : .ended .aborted ∉ eventsOf r h.history := by
      intro hm
      obtain ⟨now, hm⟩ := mem_eventsOf.mp hm
      obtain ⟨result, hresult⟩ := hall r now _ hm
      cases hresult
    rw [(Reaches.balances hf hr hst).flushes hreturned, awaiting_eq_zero hst (hno r), Nat.add_zero]
  · have hb := Reaches.balances hf hr hst
    exact ⟨hb.records, hb.counter⟩

/-- The write of a first flush fails, that of a second one succeeds and covers both batches; then
the run is interrupted. -/
theorem balances_flushes_after_failed_write :
    let s : Setup :=
      { config := { name := "engine", connectorClass := "source", flushTimeout := 5000
                    keyConverter := .json, valueConverter := .json, properties := [] }
        registry := Registry.empty.register "source" {}
        consumer := fun _ => {} }
    let x (row : Nat) : Record :=
      { partition := [("shard", .number (.integer 1))]
        offset := [("row", .number (.integer row))]
        topic := "rows", key := none, value := .null, timestamp := none }
    let plan : StorePlan :=
      { sets := fun call => if call = 0 then .answers 0 (some .flushAborted) else .succeeds }
    let h₀ : Host := { feed := [.batch [x 1], .batch [x 2, x 3]], store := { plan } }
    let h₁ := ((h₀.request.runOn s 0 20).turnWrite 0).runOn s 0 20
    let h := (((h₁.turnWrite 1).runOn s 0 20).ask .interrupt).2.runOn s 0 20
    ∃ m, h.metrics = some m ∧
      Grew 0 (h.total (addedTo .flushesCommitted)) m.flushesCommitted ∧
      Grew 0 (h.total (addedTo .flushesFailed)) m.flushesFailed ∧
      h.total (addedTo .flushesCommitted) + h.total (addedTo .flushesFailed) = 2 ∧
      coveredRecords (eventsOf 0 h.history) + recordsSince (eventsOf 0 h.history) = 3 := by
  intro s x plan h₀ h₁ h
  have hf : h₀.Fresh := ⟨rfl, rfl, rfl, rfl⟩
  have hr₁ : Reaches s h₀ h₁ :=
    Reaches.runOn (.tail (Reaches.runOn (.tail .refl .request) 0 20) (.write 0)) 0 20
  have hr : Reaches s h₀ h :=
    Reaches.runOn (.tail (Reaches.runOn (.tail hr₁ (.write 1)) 0 20) (.ask .interrupt)) 0 20
  have hall : AllReturned h.history := by decide +kernel
  have hdemanded : h.total demandedFlushes = 2 := by decide +kernel
  have hdelivered : addedTo .recordsDelivered (eventsOf 0 h.history) = 3 := by decide +kernel
  have hover : h.runs.all Run.isOver = true := by decide +kernel
  have hfirst : (h.status? 0).isSome = true := by decide +kernel
  clear_value h
  have hno : ∀ r n, ¬ h.Awaits r n := by
    rintro r n ⟨a, hst, -⟩
    obtain ⟨run, hrun, hactive⟩ := Option.map_eq_some_iff.mp hst
    have hend := List.all_eq_true.mp hover run (List.mem_of_getElem? hrun)
    rw [Run.isOver, hactive] at hend
    cases hend
  obtain ⟨st, hst⟩ := Option.isSome_iff_exists.mp hfirst
  obtain ⟨⟨m, hm, hcommitted, hfailed⟩, hbalance, -, -, hruns⟩ := Reaches.balances_flushes hf hr rfl
  exact ⟨m, hm, hcommitted, hfailed, (hbalance hall hno).trans hdemanded,
    (hruns 0 st hst).1.trans hdelivered⟩

end Host

end ChangeCapture
