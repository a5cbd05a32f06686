import ChangeCapture.Proofs.Run.Pace

/-!
# The counters as the history tells them

What the counters of a run ought to say can be read off the history: how many records the run has
delivered since its last confirmed flush, and when that flush was confirmed; before the first one,
since its loop began. Through its loop and its last commit a run counts exactly this, whatever became
of the flushes in between, and the policy is given exactly this.

A flush is confirmed only after the store has answered its write with success.

## Main definitions

* `recordsSince`, `resetInstant?`: the counters, read off the history.
* `ConsultsTally`: a consultation with these counters.
* `AnswersCommitted`: a flush that is confirmed after its write was answered with success.

## Main results

* `Host.Reaches.tallied` — runs count what the history tells, and so does the policy.
* `Host.Reaches.answered` — what is confirmed was answered with success.
-/

namespace ChangeCapture

/-! ### Counting -/

/-- Whether an event sets the counters anew. -/
def Event.isReset : Event → Bool
  | .committed _ | .loopBegun => true
  | _ => false

/-- Whether an event leaves the counters as they are. -/
def Event.leavesCounters : Event → Bool
  | .delivered _ | .committed _ | .loopBegun => false
  | _ => true

/-- **The records delivered since the last confirmed flush**, or since the loop began, given the
events of a run, the newest first. -/
def recordsSince : List Event → Nat
  | [] => 0
  | .committed _ :: _ | .loopBegun :: _ => 0
  | .delivered batch :: older => recordsSince older + batch.length
  | _ :: older => recordsSince older

/-- **The instant of the last confirmed flush** of a run, or of the beginning of its loop. -/
def resetInstant? (r : Nat) (history : List HistoryEntry) : Option Nat :=
  (history.find? fun x => x.run = r && x.event.isReset).map HistoryEntry.instant

/-- Events that leave the counters as they are do not set them anew. -/
theorem Event.not_isReset_of_all {es : List Event} (h : es.all Event.leavesCounters = true) :
    ∀ e ∈ es, e.isReset = false := by
  intro e he
  have hleaves := List.all_eq_true.mp h e he
  cases e <;> first | rfl | cases hleaves

/-- Events that leave the counters as they are may be added. -/
theorem recordsSince_append {newer older : List Event}
    (h : newer.all Event.leavesCounters = true) :
    recordsSince (newer ++ older) = recordsSince older := by
  induction newer with
  | nil => rfl
  | cons e newer ih =>
    rw [List.all_cons, Bool.and_eq_true] at h
    rw [← ih h.2]
    cases e <;> first | rfl | cases h.1

/-- Entries that set the counters of a run not anew may be added. -/
theorem resetInstant?_append {r : Nat} {newer older : List HistoryEntry}
    (h : ∀ x ∈ newer, x.run = r → x.event.isReset = false) :
    resetInstant? r (newer ++ older) = resetInstant? r older := by
  have hnone : newer.find? (fun x => x.run = r && x.event.isReset) = none := by
    refine List.find?_eq_none.mpr fun x hx hreset => ?_
    rw [Bool.and_eq_true, decide_eq_true_eq] at hreset
    rw [h x hx hreset.1] at hreset
    cases hreset.2
  rw [resetInstant?, List.find?_append, hnone, Option.none_or, resetInstant?]

/-- Uncounted events leave the counters as they are. -/
theorem Event.leavesCounters_uncounted {es : List Event} (h : es.all Event.isUncounted = true) :
    es.all Event.leavesCounters = true := by
  refine List.all_eq_true.mpr fun e he => ?_
  have huncounted := List.all_eq_true.mp h e he
  cases e <;> first | rfl | cases huncounted

/-- The turns of writes leave the counters as they are. -/
theorem Event.leavesCounters_write {n : Nat} {entries : Entries} {es : List Event}
    (h : ∀ e ∈ es, e.IsOfWrite n entries) : es.all Event.leavesCounters = true := by
  refine List.all_eq_true.mpr fun e he => ?_
  obtain rfl | ⟨_, rfl⟩ | rfl := h e he <;> rfl

/-- A consultation leaves the counters as they are. -/
theorem leavesCounters_consultation (s : Setup) (now : Nat) (a : Active) :
    (consultation s now a).all Event.leavesCounters = true := by
  simp [consultation, Event.leavesCounters]

/-- **Whether the policy is consulted with the counters that the history tells**, and says what it
says to these. -/
def ConsultsTally (s : Setup) (x : HistoryEntry) (earlier : List HistoryEntry) : Prop :=
  ∀ records elapsed fired, x.event = .consulted records elapsed fired →
    records = recordsSince (eventsOf x.run earlier) ∧
      (∃ t, resetInstant? x.run earlier = some t ∧ t + elapsed = x.instant) ∧
        fired = s.policy.fires records elapsed

/-- Whether a run is in its loop or at its last commit. -/
def Phase.isLooping : Phase → Bool
  | .loop | .final => true
  | .startUp | .out _ => false

namespace Host

/-- **A run counts what the history tells.** -/
structure Tallies (r : Nat) (a : Active) (h : Host) : Prop where
  records : a.records = recordsSince (eventsOf r h.history)
  since : resetInstant? r h.history = some a.lastCommit
  past : a.lastCommit ≤ h.now

/-- **Runs count what the history tells**, and so does the policy. -/
structure Tallied (s : Setup) (h : Host) : Prop where
  active : ∀ r a, h.status? r = some (.active a) → a.stage.phase.isLooping = true → Tallies r a h
  consults : Throughout (ConsultsTally s) h.history

variable {s : Setup} {r n : Nat} {h h' h₀ h₁ : Host} {st st' : RunStatus} {es : List Event}
  {a a' : Active}

/-! ### Steps -/

/-- The instant of the last reset stays when nothing is reset. -/
theorem Adds.resetInstant? (hadds : h.Adds r es h₁) {r' : Nat}
    (hes : r = r' → ∀ e ∈ es, e.isReset = false) :
    resetInstant? r' h₁.history = resetInstant? r' h.history := by
  rw [hadds.history]
  refine resetInstant?_append fun x hx hrun => ?_
  obtain ⟨e, he, rfl⟩ := List.mem_map.mp (List.mem_reverse.mp hx)
  exact hes hrun e he

/-- A reset is the last one. -/
theorem Adds.resetInstant?_reset {e : Event} (hadds : h.Adds r (es ++ [e]) h₁)
    (he : e.isReset = true) : ChangeCapture.resetInstant? r h₁.history = some h.now := by
  rw [hadds.history, List.map_append, List.reverse_append]
  simp [ChangeCapture.resetInstant?, he]

/-- A run that counts what the history tells goes on to do so where nothing is counted. -/
theorem Tallies.leaves (ht : Tallies r a h) (hadds : h.Adds r es h₁)
    (hes : es.all Event.leavesCounters = true) (hc : a.CountsAs a') : Tallies r a' h₁ where
  records := by
    rw [hc.records, hadds.eventsOf_self, recordsSince_append (by rwa [List.all_reverse]),
      ht.records]
  since := by
    rw [hadds.resetInstant? fun _ => Event.not_isReset_of_all hes, hc.lastCommit, ht.since]
  past := by rw [hc.lastCommit, hadds.now]; exact ht.past

/-- Another run's events leave a run its counters. -/
theorem Tallies.beside {r' : Nat} (ht : Tallies r' a h) (hadds : h.Adds r es h₁) (hr : r ≠ r') :
    Tallies r' a h₁ where
  records := by rw [hadds.eventsOf_of_ne hr, ht.records]
  since := by rw [hadds.resetInstant? fun heq => absurd heq hr, ht.since]
  past := by rw [hadds.now]; exact ht.past

/-- Writing down how far a run is leaves the counters. -/
theorem Tallies.setStatus {r' : Nat} (ht : Tallies r' a h) (r : Nat) (st : RunStatus) :
    Tallies r' a (h.setStatus r st) :=
  ⟨ht.records, ht.since, ht.past⟩

/-- A run that has set its counters anew counts what the history tells. -/
theorem Tallies.anew {e : Event} (hadds : h.Adds r (es ++ [e]) h₁) (he : e.isReset = true)
    (hrecords : a'.records = 0) (hlast : a'.lastCommit = h.now) : Tallies r a' h₁ where
  records := by
    rw [hrecords, hadds.eventsOf_self, List.reverse_append]
    cases e <;> first | rfl | cases he
  since := by rw [hadds.resetInstant?_reset he, hlast]
  past := by rw [hlast, hadds.now]

/-- **One step keeps a run counting what the history tells.** -/
theorem Counts.tallies (hc : Counts s h (.active a) es (.active a')) (hadds : h.Adds r es h₁)
    (ht : a.stage.phase.isLooping = true → Tallies r a h)
    (hloop : a'.stage.phase.isLooping = true) : Tallies r a' h₁ := by
  have looping : a.stage.isCommitting = true → Tallies r a h := by
    intro hcommit
    refine ht ?_
    rcases Stage.phase_of_isCommitting hcommit with hp | hp <;> rw [hp] <;> rfl
  cases hc with
  | keeps hes _ _ hphase hc =>
    refine (ht ?_).leaves hadds (Event.leavesCounters_uncounted hes) hc
    rcases hphase with heq | ⟨-, result, heq, -⟩
    · rwa [← heq]
    · rw [heq] at hloop
      cases hloop
  | begins _ _ _ hr hl => exact Tallies.anew hadds rfl hr hl
  | delivers ha _ hr hl =>
    have hold := ht (by rw [ha]; rfl)
    refine ⟨?_, ?_, ?_⟩
    · rw [hr, hold.records, hadds.eventsOf_self]
      rfl
    · rw [hadds.resetInstant? fun _ e he => List.mem_singleton.mp he ▸ rfl, hl, hold.since]
    · rw [hl, hadds.now]
      exact hold.past
  | heeds hes ha _ hc =>
    refine (ht ?_).leaves hadds ?_ hc
    · rcases ha with ha | ha <;> rw [ha] <;> rfl
    · rw [List.all_append, Event.leavesCounters_uncounted hes]
      rfl
  | skips ha _ hes _ hc =>
    refine (looping (by rw [ha]; rfl)).leaves hadds ?_ hc
    rw [List.all_append, leavesCounters_consultation, Event.leavesCounters_uncounted hes]
    rfl
  | submits ha _ _ _ _ hc =>
    refine (looping (by rw [ha]; rfl)).leaves hadds ?_ hc
    rw [List.all_append, leavesCounters_consultation]
    rfl
  | commits _ _ _ hr hl => exact Tallies.anew hadds rfl hr hl
  | givesUp ha _ hc => exact (looping (by rw [ha]; rfl)).leaves hadds rfl hc

/-- **The policy is consulted with the counters** of a run that commits. -/
theorem Counts.consulted {records elapsed : Nat} {fired : Bool} (hc : Counts s h st es st')
    (hm : .consulted records elapsed fired ∈ es) :
    ∃ a, st = .active a ∧ a.stage.isCommitting = true ∧ es.all Event.leavesCounters = true ∧
      records = a.records ∧ elapsed = h.now - a.lastCommit ∧
      fired = s.policy.fires records elapsed := by
  have uncounted : ∀ {es : List Event}, es.all Event.isUncounted = true →
      .consulted records elapsed fired ∉ es := fun hes => Event.not_mem_of_all hes rfl
  have asked : ∀ {a : Active}, .consulted records elapsed fired ∈ consultation s h.now a →
      records = a.records ∧ elapsed = h.now - a.lastCommit ∧
        fired = s.policy.fires records elapsed := by
    intro a hm
    obtain ⟨rfl, rfl, rfl⟩ : records = a.records ∧ elapsed = h.now - a.lastCommit ∧
        fired = s.policy.fires a.records (h.now - a.lastCommit) := by
      simpa [consultation] using hm
    exact ⟨rfl, rfl, rfl⟩
  cases hc with
  | starts hes | ends hes | keeps hes => exact absurd hm (uncounted hes)
  | begins hes | heeds hes | commits _ hes => exact absurd (by simpa using hm) (uncounted hes)
  | delivers | givesUp => simp at hm
  | @skips a _ _ _ ha _ hes =>
    refine ⟨a, rfl, by rw [ha]; rfl, ?_, ?_⟩
    · rw [List.all_append, leavesCounters_consultation, Event.leavesCounters_uncounted hes]
      rfl
    · rcases List.mem_append.mp hm with hm | hm
      · exact asked hm
      · exact absurd hm (uncounted hes)
  | @submits a _ _ _ _ _ _ ha =>
    refine ⟨a, rfl, by rw [ha]; rfl, ?_, ?_⟩
    · rw [List.all_append, leavesCounters_consultation]
      rfl
    · exact asked (by simpa using hm)

/-! ### Every host -/

/-- A step keeps runs and the policy counting what the history tells. -/
theorem Tallied.step (ht : h.Tallied s) (hst : h.status? r = some st) (hadds : h.Adds r es h₁)
    (hc : Counts s h st es st') : (h₁.setStatus r st').Tallied s where
  active r' b hb hloop := by
    refine Tallies.setStatus ?_ r st'
    rw [hadds.status?_setStatus hst] at hb
    split at hb
    · rename_i hr
      subst hr
      obtain rfl := Option.some.inj hb
      cases st with
      | requested =>
        cases hc with
        | starts _ hp =>
          rw [hp] at hloop
          cases hloop
      | active a => exact hc.tallies hadds (ht.active r a hst) hloop
      | ended outcome => cases hc
    · rename_i hr
      exact (ht.active r' b hb hloop).beside hadds hr
  consults := by
    change Throughout (ConsultsTally s) h₁.history
    refine ht.consults.adds_in_order hadds fun es₁ e es₂ heq records elapsed fired he => ?_
    obtain rfl : e = .consulted records elapsed fired := he
    have hm : .consulted records elapsed fired ∈ es :=
      heq ▸ List.mem_append_right _ List.mem_cons_self
    obtain ⟨a, rfl, hcommit, hes, rfl, rfl, rfl⟩ := hc.consulted hm
    have hloop : a.stage.phase.isLooping = true := by
      rcases Stage.phase_of_isCommitting hcommit with hp | hp <;> rw [hp] <;> rfl
    obtain ⟨hrecords, hsince, hpast⟩ := ht.active r a hst hloop
    -- What the same step adds before leaves the counters as they are.
    rw [heq, List.all_append, Bool.and_eq_true] at hes
    have hbefore : h.Adds r es₁ { h₁ with
        history := (es₁.map (HistoryEntry.mk r h.now)).reverse ++ h.history } :=
      ⟨rfl, hadds.runs, hadds.now⟩
    refine ⟨?_, ⟨a.lastCommit, ?_, ?_⟩, rfl⟩
    · rw [hbefore.eventsOf_self, recordsSince_append (by rw [List.all_reverse]; exact hes.1)]
      exact hrecords
    · exact (hbefore.resetInstant? fun _ => Event.not_isReset_of_all hes.1).trans hsince
    · exact Nat.add_sub_cancel' hpast

/-- **Runs count what the history tells, and the policy is consulted with it.** -/
theorem Reaches.tallied (hf : h₀.Fresh) (hr : Reaches s h₀ h) : h.Tallied s := by
  induction hr with
  | refl =>
    refine ⟨fun r a hst => ?_, by rw [hf.history]; trivial⟩
    rw [hf.status?] at hst
    cases hst
  | @tail h h' hr hm ih =>
    refine hm.elim (fun hrests => ⟨fun r a hst hloop => ?_, hrests.history ▸ ih.consults⟩)
      (fun n w status es hw => ⟨fun r a hst hloop => ?_, ?_⟩) fun r st es st' h₁ hadv _ _ _ _ => ?_
    · obtain ⟨hrecords, hsince, hpast⟩ := ih.active r a (hrests.active hst) hloop
      exact ⟨by rw [hrests.history, hrecords], by rw [hrests.history, hsince],
        Nat.le_trans hpast hm.now_le⟩
    · have hold := ih.active r a ((hw.status? r).symm.trans hst) hloop
      by_cases hrun : w.run = r
      · subst hrun
        exact hold.leaves hw.adds (Event.leavesCounters_write hw.events) ⟨rfl, rfl⟩
      · exact hold.beside hw.adds hrun
    · refine ih.consults.adds hw.adds fun e he between records elapsed fired heq => ?_
      obtain rfl | ⟨_, rfl⟩ | rfl := hw.events e he <;> cases heq
    · obtain ⟨st, es, st', h₁, hst, hadds, hc, rfl⟩ := advance_counts hadv
      exact ih.step hst hadds hc

end Host

/-! ### Success -/

/-- **Whether a flush is confirmed after its write was answered with success.** -/
def AnswersCommitted (x : HistoryEntry) (earlier : List HistoryEntry) : Prop :=
  ∀ n, x.event = .committed n → .answered n none ∈ eventsOf x.run earlier

namespace Host

variable {s : Setup} {r n : Nat} {h h' h₀ : Host} {st st' : RunStatus} {es : List Event} {w : Write}

/-- **Writes that have ended with success were answered so**, and what is confirmed was answered with
success before. -/
structure Answered (h : Host) : Prop where
  ended : ∀ n w, h.writes[n]? = some w → w.status = .finished none →
    .answered n none ∈ eventsOf w.run h.history
  committed : Throughout AnswersCommitted h.history

/-- **What is confirmed was answered with success.** -/
theorem Reaches.answered (hf : h₀.Fresh) (hr : Reaches s h₀ h) : h.Answered := by
  induction hr with
  | refl =>
    refine ⟨fun n w hw => ?_, by rw [hf.history]; trivial⟩
    rw [hf.writes] at hw
    cases hw
  | @tail h h' hr hm ih =>
    refine hm.elim (fun hrests => ⟨fun n w hw hok => ?_, hrests.history ▸ ih.committed⟩)
      (fun m write status es hturn => ⟨fun n w hw hok => ?_, ?_⟩)
      fun r st es st' h₁ _ hst _ hact heq => ?_
    · rw [hrests.history]
      exact ih.ended n w (hrests.writes ▸ hw) hok
    · rw [hturn.getElem?] at hw
      split at hw
      · rename_i hn
        subst hn
        obtain rfl := Option.some.inj hw
        exact hturn.adds.mem_eventsOf_self (hturn.answered hok)
      · exact hturn.adds.mem_eventsOf (ih.ended n w hw hok)
    · refine ih.committed.adds hturn.adds fun e he between n heq => ?_
      obtain rfl | ⟨_, rfl⟩ | rfl := hturn.events e he <;> cases heq
    · subst heq
      refine ⟨fun n w hw hok => ?_, ?_⟩
      · exact hact.adds.mem_eventsOf (ih.ended n w (hact.books.finished hw hok) hok)
      · change Throughout AnswersCommitted h₁.history
        refine ih.committed.adds hact.adds fun e he between n heq => ?_
        obtain rfl : e = .committed n := heq
        obtain ⟨a, -, write, rfl, hwait, -, -, hn, hok⟩ := hact.books.of_committed he
        obtain ⟨w, hw, hrun⟩ := (Reaches.orderly hf hr).awaited r n ⟨a, hst, hwait⟩
        obtain rfl := Option.some.inj (hw.symm.trans hn)
        rw [eventsOf_append]
        exact List.mem_append_right _ (hrun ▸ ih.ended n w hw hok)

end Host

end ChangeCapture
