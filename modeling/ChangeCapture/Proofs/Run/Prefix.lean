import ChangeCapture.Proofs.Run.Relay

/-!
# Delivery is a prefix

A run hands over what its polls gave: in their order, each record once, and all of it. It stops
short only at a record that the consumer does not accept, and that record is the last one. If the
consumer rejected it, the run parts: it neither polls nor consults the policy any more, none of its
writes acts on the store, and it returns the report of the rejection.

## Main definitions

* `Setup.verdictAfter`: the verdict on a record that is handed over after a history.
* `Host.Refused`, `Host.Rejected`: the consumer did not accept a record of a run, or rejected it.
* `Host.CutShort`: what a run does that the consumer has cut short.

## Main results

* `Host.Relays.delivers` — one step keeps what was polled and what was handed over in balance.
* `Host.Reaches.cut_short` — a run that is cut short only parts.
* `Host.Reaches.rejected` — a run returns the report of a record only if that was rejected with it.
* `Host.ReachesUnbroken.delivers_prefix` — a run delivers a prefix of what was polled.
-/

namespace ChangeCapture

/-- **The verdict of the consumer** on a record that is handed over after a history, given how often
the consumer was called before it. -/
def Setup.verdictAfter (s : Setup) (before : Nat) (earlier : List HistoryEntry) : Verdict :=
  (s.consumer (before + handovers earlier)).verdict

/-- Where the record stands that a step hands over. -/
theorem entry_of_handed {r now t : Nat} {x y : Record} {es : List Event}
    {later middle : List HistoryEntry} (hes : es.all Event.isStill = true)
    (h : ((.deliver x :: es).map (HistoryEntry.mk r now)).reverse =
      later ++ ⟨r, t, .deliver y⟩ :: middle) :
    later = (es.map (HistoryEntry.mk r now)).reverse ∧ middle = [] := by
  rw [List.map_cons, List.reverse_cons] at h
  obtain ⟨before, rfl, hsingle⟩ | ⟨after, hold, -⟩ := append_cons_cases h
  · obtain ⟨rfl, hrest⟩ : before = [] ∧ middle = [] := by
      cases before <;> simp_all
    exact ⟨List.append_nil _, hrest⟩
  · have hmem : ⟨r, t, .deliver y⟩ ∈ (es.map (HistoryEntry.mk r now)).reverse := by simp [hold]
    obtain ⟨e, he, heq⟩ := List.mem_map.mp (List.mem_reverse.mp hmem)
    cases heq
    exact absurd he (Event.not_mem_of_all hes rfl)

/-- A run that is cut short waits for no write. -/
theorem Verdict.Leaves.standing_ne {v : Verdict} {a' : Active} {n : Nat}
    (hv : v.Leaves (.active a')) : a'.stage.standing ≠ .waiting n := by
  intro hwait
  cases v with
  | accepts => exact hv
  | rejects report =>
    have hres : a'.stage.result? = some _ := hv
    rw [Stage.result?_of_waiting hwait] at hres
    cases hres
  | panics => cases hv

namespace Host

variable {s : Setup} {r n before : Nat} {h h' h₀ h₁ : Host} {st st' : RunStatus}
  {es older : List Event} {a : Active} {v : Verdict} {x : Record}
  {later earlier new : List HistoryEntry}

/-! ### The balance of records -/

/-- **One step keeps what was polled and what was handed over in balance.** What is left is what the
run has still to hand over, unless the step hands over a record that is not accepted. Nobody drops a
run that has something left. -/
theorem Relays.delivers (hr : Relays s r h st es st' h₁)
    (hdrop : h.isAborting r = true → st.left = [])
    (hold : polledRecords older = handedRecords older ++ st.left) :
    ∃ left, polledRecords (es.reverse ++ older) = handedRecords (es.reverse ++ older) ++ left ∧
      (left = st'.left ∨
        ∃ x es', es = .deliver x :: es' ∧ (s.consumer h.deliveries).verdict ≠ .accepts) := by
  rw [polledRecords_append, handedRecords_append, hold]
  cases hr with
  | rests _ hleft hes hleft' =>
    refine ⟨[], ?_, .inl hleft'.symm⟩
    simp [flatMap_gave_still hes, filterMap_handed?_still hes, hleft]
  | @receives a a' batch _ ha ha' =>
    refine ⟨batch, ?_, .inl (by rw [RunStatus.left, ha']; rfl)⟩
    rw [RunStatus.left, ha]
    simp [Stage.left, Event.gave, Event.handed?]
  | @hands a a' x rest _ es _ ha _ hes ha' =>
    refine ⟨rest, ?_, .inl (by rw [RunStatus.left, ha']; rfl)⟩
    rw [RunStatus.left, ha, List.flatMap_cons, List.filterMap_cons, flatMap_gave_still hes,
      filterMap_handed?_still hes]
    simp [Stage.left, Event.gave, Event.handed?]
  | @cuts a _ x rest _ es _ ha hv hes =>
    refine ⟨rest, ?_, .inr ⟨x, es, rfl, hv⟩⟩
    have hstill := Event.isStill_of_isParting hes
    rw [RunStatus.left, ha, List.flatMap_cons, List.filterMap_cons, flatMap_gave_still hstill,
      filterMap_handed?_still hstill]
    simp [Stage.left, Event.gave, Event.handed?]
  | parts hst hes hst' =>
    have hstill := Event.isStill_of_isParting hes
    refine ⟨[], ?_, .inl (RunStatus.left_of_result? hst').symm⟩
    simp [flatMap_gave_still hstill, filterMap_handed?_still hstill, RunStatus.left_of_result? hst]
  | drops hab hes =>
    have hstill := Event.isStill_of_isParting hes
    refine ⟨[], ?_, .inl rfl⟩
    simp [flatMap_gave_still hstill, filterMap_handed?_still hstill, hdrop hab]

/-- Events that move no record keep the balance as it is. -/
theorem balance_still {left : List Record} (hes : es.all Event.isStill = true)
    (hold : polledRecords older = handedRecords older ++ left) :
    polledRecords (es.reverse ++ older) = handedRecords (es.reverse ++ older) ++ left := by
  rw [polledRecords_append, handedRecords_append, flatMap_gave_still hes,
    filterMap_handed?_still hes, List.append_nil, List.append_nil, hold]

/-! ### Runs that are cut short -/

/-- **What a run does that the consumer has cut short**, given the verdict and what has happened
since: it parts, unless it is dropped on its way out, and none of its writes can act any more. -/
structure CutShort (h : Host) (r : Nat) (v : Verdict) (later : List HistoryEntry) : Prop where
  leaves : ∃ st, h.status? r = some st ∧
    (v.Leaves st ∨ st = .ended .aborted ∧ h.isAborting r = true)
  parting : (eventsOf r later).all Event.isParting = true
  idle : ∀ (n : Nat) (w : Write), h.writes[n]? = some w → w.run = r → w.isLive = false

/-- **Whether the consumer did not accept a record** of a run. -/
def Refused (s : Setup) (before : Nat) (h : Host) (r : Nat) : Prop :=
  ∃ later t x earlier, h.history = later ++ ⟨r, t, .deliver x⟩ :: earlier ∧
    s.verdictAfter before earlier ≠ .accepts

/-- **Whether the consumer rejected a record that a run handed over**, and with which report. -/
def Rejected (s : Setup) (before : Nat) (h : Host) (r : Nat) (x : Record) (report : Report) :
    Prop :=
  ∃ later t earlier, h.history = later ++ ⟨r, t, .deliver x⟩ :: earlier ∧
    s.verdictAfter before earlier = .rejects report

/-- What was refused stays so. -/
theorem Refused.mono (hr : h.Refused s before r) (hnew : h'.history = new ++ h.history) :
    h'.Refused s before r := by
  obtain ⟨later, t, x, earlier, heq, hv⟩ := hr
  exact ⟨new ++ later, t, x, earlier, by rw [hnew, heq, List.append_assoc], hv⟩

/-- What was rejected stays so. -/
theorem Rejected.move {report : Report} (hr : h.Rejected s before r x report) (hm : Move s h h') :
    h'.Rejected s before r x report := by
  obtain ⟨later, t, earlier, heq, hv⟩ := hr
  obtain ⟨newer, hnewer⟩ := hm.exists_newer
  exact ⟨newer ++ later, t, earlier, by rw [hnewer, heq, List.append_assoc], hv⟩

/-- Where a record stands in the history that a step hands over first. -/
theorem Adds.handed (hadds : h.Adds r (.deliver x :: es) h₁) :
    h₁.history = (es.map (HistoryEntry.mk r h.now)).reverse ++
      ⟨r, h.now, .deliver x⟩ :: h.history := by
  rw [hadds.history, List.map_cons, List.reverse_cons, List.append_assoc]
  rfl

/-- **A step that hands over a record is given the verdict** on it. -/
theorem Adds.rejected (hadds : h.Adds r (.deliver x :: es) h₁)
    (hn : h.deliveries = before + handovers h.history) {report : Report}
    (hv : (s.consumer h.deliveries).verdict = .rejects report) :
    h₁.Rejected s before r x report := by
  rw [hn] at hv
  exact ⟨_, _, _, hadds.handed, hv⟩

/-- A write that can act after a step could before, or its run waits for it. -/
theorem live_of_advance (hadv : h.advance s r = some h') {w : Write}
    (hw : h'.writes[n]? = some w) (hl : w.isLive = true) :
    h.writes[n]? = some w ∨
      w.run = r ∧ ∃ a', h'.status? r = some (.active a') ∧ a'.stage.standing = .waiting n := by
  obtain ⟨st, es, st', h₁, hst, -, hact, rfl⟩ := advance_acts hadv
  obtain hold | ⟨hrun, a', rfl, hwait⟩ := hact.books.live hw hl
  · exact .inl hold
  · exact .inr ⟨hrun, a', by rw [hact.status? hst, if_pos rfl], hwait⟩

/-- **A run that is cut short only parts.** -/
theorem Relays.leaves (hr : Relays s r h st es st' h₁) (hlive : ∀ outcome, st ≠ .ended outcome)
    (hv : v.Leaves st) : (v.Leaves st' ∨ st' = .ended .aborted ∧ h.isAborting r = true) ∧
      es.all Event.isParting = true := by
  cases v with
  | accepts => exact hv.elim
  | panics => exact absurd hv (hlive _)
  | rejects report =>
    have hres : st.result? = some (.error (.delivery report)) := hv
    cases hr with
    | rests hst =>
      rw [hst] at hres
      cases hres
    | receives ha | hands ha | cuts ha =>
      rw [RunStatus.result?, ha] at hres
      cases hres
    | parts hst hes hst' =>
      rw [hst] at hres
      exact ⟨.inl (hst'.trans hres), hes⟩
    | drops hab hes => exact ⟨.inr ⟨rfl, hab⟩, hes⟩

/-- A run that is to be dropped stays so. -/
theorem Move.isAborting (hm : Move s h h') (hab : h.isAborting r = true) :
    h'.isAborting r = true := by
  obtain ⟨run, hrun, haborting⟩ := (Option.any_eq_true ..).mp hab
  cases hm with
  | request =>
    rw [Host.isAborting, Host.request,
      List.getElem?_append_left (List.getElem?_eq_some_iff.mp hrun).1]
    exact hab
  | abort r' =>
    rw [Host.isAborting, Host.abort, List.getElem?_modify, hrun]
    by_cases hr : r' = r <;> simp [hr, haborting]
  | write n =>
    obtain heq | ⟨w, status, es, hw⟩ := turnWrite_cases n h
    · rwa [heq]
    · rwa [Host.isAborting, hw.adds.runs]
  | run r' hadv => rwa [isAborting_advance hadv]
  | _ => exact hab

/-- The turn of a write leaves cut short what was. -/
theorem CutShort.writeTurns {write : Write} {status : WriteStatus} (hc : h.CutShort r v later)
    (hw : h.WriteTurns n write status es h') (hnew : h'.history = new ++ h.history) :
    h'.CutShort r v (new ++ later) := by
  -- The write is live, so it is another run's.
  have hrun : write.run ≠ r := by
    intro hrun
    have hidle := hc.idle n write hw.found hrun
    rw [hw.live] at hidle
    cases hidle
  obtain rfl := List.append_cancel_right (hw.adds.history.symm.trans hnew)
  obtain ⟨st, hst, hv⟩ := hc.leaves
  refine ⟨⟨st, (hw.status? r).trans hst, ?_⟩, ?_, fun m w hm hr => ?_⟩
  · rwa [isAborting, hw.adds.runs]
  · rw [eventsOf_append, ← List.map_reverse, eventsOf_map_of_ne hrun]
    exact hc.parting
  · refine Bool.eq_false_iff.mpr fun hl => ?_
    obtain ⟨w₀, hm₀, hl₀, hrun₀⟩ := hw.was_live hm hl
    rw [hc.idle m w₀ hm₀ (hrun₀.trans hr)] at hl₀
    cases hl₀

/-- A step leaves cut short what was: if it is a step of that run, it parts. -/
theorem CutShort.advance {r' : Nat} (hc : h.CutShort r v later) (hadv : h.advance s r' = some h')
    (hnew : h'.history = new ++ h.history) : h'.CutShort r v (new ++ later) := by
  obtain ⟨st, hst, hv⟩ := hc.leaves
  obtain ⟨⟨st', hst', hleaves⟩, hparting⟩ : (∃ st', h'.status? r = some st' ∧
      (v.Leaves st' ∨ st' = .ended .aborted ∧ h'.isAborting r = true)) ∧
      (eventsOf r new).all Event.isParting = true := by
    rw [isAborting_advance hadv r]
    obtain ⟨st₁, es, st₁', h₁, hst₁, hlive, hadds, hrelays, rfl⟩ := advance_relays hadv
    obtain rfl := List.append_cancel_right (hadds.history.symm.trans hnew)
    rw [← List.map_reverse]
    by_cases hr : r' = r
    · subst hr
      obtain rfl := Option.some.inj (hst₁.symm.trans hst)
      obtain ⟨hleaves, hes⟩ := hrelays.leaves hlive (hv.resolve_right fun hend => hlive _ hend.1)
      refine ⟨⟨st₁', by rw [hadds.status?_setStatus hst, if_pos rfl], hleaves⟩, ?_⟩
      rw [eventsOf_map_self, List.all_reverse, hes]
    · refine ⟨⟨st, by rw [hadds.status?_setStatus hst₁, if_neg hr, hst], hv⟩, ?_⟩
      rw [eventsOf_map_of_ne hr]
      rfl
  refine ⟨⟨st', hst', hleaves⟩, ?_, fun n w hw hr => ?_⟩
  · rw [eventsOf_append, List.all_append, hparting, hc.parting]
    rfl
  · refine Bool.eq_false_iff.mpr fun hl => ?_
    obtain hold | ⟨hrun, a', ha', hwait⟩ := live_of_advance hadv hw hl
    · rw [hc.idle n w hold hr] at hl
      cases hl
    · obtain rfl : r' = r := hrun.symm.trans hr
      obtain rfl := Option.some.inj (ha'.symm.trans hst')
      exact (hleaves.resolve_right nofun).standing_ne hwait

/-- **What was cut short stays so** after a move. -/
theorem CutShort.move (hc : h.CutShort r v later) (hm : Move s h h')
    (hnew : h'.history = new ++ h.history) : h'.CutShort r v (new ++ later) := by
  refine hm.elim (fun hrests => ?_) (fun _ _ _ _ hw => hc.writeTurns hw hnew)
    fun _ _ _ _ _ hadv _ _ _ _ => hc.advance hadv hnew
  obtain ⟨st, hst, hv⟩ := hc.leaves
  obtain rfl := List.append_cancel_right
    ((List.nil_append _).trans (hrests.history.symm.trans hnew))
  exact ⟨⟨st, hrests.status?_eq hst, hv.imp_right fun ⟨hend, hab⟩ => ⟨hend, hm.isAborting hab⟩⟩,
    hc.parting, hrests.writes ▸ hc.idle⟩

/-! ### Records that are not accepted -/

/-- **What comes of a record that a step hands over.** It is the first event of the step, and if it
is not accepted, its run is cut short. -/
theorem Relays.handed {r' now t : Nat} {middle : List HistoryEntry}
    (hr : Relays s r h st es st' h₁)
    (heq : (es.map (HistoryEntry.mk r now)).reverse = later ++ ⟨r', t, .deliver x⟩ :: middle) :
    r = r' ∧ middle = [] ∧
      (∃ a rest batch, st = .active a ∧ a.stage = .delivering rest batch) ∧
      ((s.consumer h.deliveries).verdict ≠ .accepts →
        (s.consumer h.deliveries).verdict.Leaves st' ∧
          (eventsOf r later).all Event.isParting = true) := by
  obtain ⟨e, he, hentry⟩ : ∃ e ∈ es, HistoryEntry.mk r now e = ⟨r', t, .deliver x⟩ :=
    List.mem_map.mp (List.mem_reverse.mp (by simp [heq]))
  cases hentry
  cases hr with
  | rests _ _ hes => exact absurd he (Event.not_mem_of_all hes rfl)
  | parts _ hes | drops _ hes => exact absurd he (Event.not_mem_of_all hes rfl)
  | receives => simp at he
  | hands ha hv hes =>
    obtain ⟨-, hmiddle⟩ := entry_of_handed hes heq
    exact ⟨rfl, hmiddle, ⟨_, _, _, rfl, ha⟩, fun hno => absurd hv hno⟩
  | cuts ha _ hes hleaves =>
    obtain ⟨rfl, hmiddle⟩ := entry_of_handed (Event.isStill_of_isParting hes) heq
    refine ⟨rfl, hmiddle, ⟨_, _, _, rfl, ha⟩, fun _ => ⟨hleaves, ?_⟩⟩
    rw [← List.map_reverse, eventsOf_map_self, List.all_reverse, hes]

/-- A run that delivers a batch has left no write behind that could act. -/
theorem Orderly.over_of_delivering (ho : h.Orderly) (hst : h.status? r = some (.active a))
    {rest batch : List Record} (ha : a.stage = .delivering rest batch) {w : Write}
    (hw : h.writes[n]? = some w) (hrun : w.run = r) : w.isLive = false := by
  refine Bool.eq_false_iff.mpr fun hl => ?_
  obtain ⟨a', ha', hwait⟩ | ⟨outcome, hend, -⟩ := ho.live n w hw hl
  · rw [hrun, hst] at ha'
    obtain rfl := RunStatus.active.inj (Option.some.inj ha')
    rw [ha] at hwait
    cases hwait
  · rw [hrun, hst] at hend
    cases hend

/-- **A step that hands over a record that is not accepted cuts its run short.** -/
theorem CutShort.start {r' t : Nat} {middle : List HistoryEntry} (ho : h.Orderly)
    (hn : h.deliveries = before + handovers h.history) (hadv : h.advance s r' = some h')
    (hnew : h'.history = (later ++ ⟨r, t, .deliver x⟩ :: middle) ++ h.history)
    (hv : s.verdictAfter before (middle ++ h.history) ≠ .accepts) :
    h'.CutShort r (s.verdictAfter before (middle ++ h.history)) later := by
  have hlive := fun n w => live_of_advance (n := n) (w := w) hadv
  obtain ⟨st, es, st', h₁, hst, -, hadds, hrelays, rfl⟩ := advance_relays hadv
  have hes := List.append_cancel_right (hadds.history.symm.trans hnew)
  obtain ⟨rfl, rfl, ⟨a, rest, batch, rfl, ha⟩, hcut⟩ := hrelays.handed hes
  rw [List.nil_append, Setup.verdictAfter, ← hn] at hv ⊢
  obtain ⟨hleaves, hparting⟩ := hcut hv
  have hst' : (h₁.setStatus r' st').status? r' = some st' := by
    rw [hadds.status?_setStatus hst, if_pos rfl]
  refine ⟨⟨st', hst', .inl hleaves⟩, hparting, fun n w hw hrun => ?_⟩
  refine Bool.eq_false_iff.mpr fun hl => ?_
  obtain hold | ⟨-, a', ha', hwait⟩ := hlive n w hw hl
  · rw [ho.over_of_delivering hst ha hold hrun] at hl
    cases hl
  · obtain rfl := Option.some.inj (ha'.symm.trans hst')
    exact hleaves.standing_ne hwait

/-- **A run whose record was not accepted is cut short**, and so it stays. -/
theorem Reaches.cut_short (hf : h₀.Fresh) (hr : Reaches s h₀ h) {t : Nat}
    (heq : h.history = later ++ ⟨r, t, .deliver x⟩ :: earlier)
    (hv : s.verdictAfter h₀.deliveries earlier ≠ .accepts) :
    h.CutShort r (s.verdictAfter h₀.deliveries earlier) later := by
  induction hr generalizing later earlier with
  | refl =>
    rw [hf.history] at heq
    simp at heq
  | @tail h h' hr hm ih =>
    have settled : ∀ new : List HistoryEntry, h'.history = new ++ h.history →
        .deliver x ∉ eventsOf r new →
        h'.CutShort r (s.verdictAfter h₀.deliveries earlier) later := by
      intro new hnew hno
      rw [hnew] at heq
      obtain ⟨middle, rfl, hold⟩ | ⟨middle, rfl, -⟩ := append_cons_cases heq
      · exact (ih hold hv).move hm hnew
      · exact absurd (mem_eventsOf.mpr ⟨t, by simp⟩) hno
    refine hm.elim (fun hrests => ?_) (fun n write status es hw => ?_)
      fun r' _ _ _ _ hadv _ _ _ _ => ?_
    · exact settled [] hrests.history List.not_mem_nil
    · refine settled _ hw.adds.history fun hmem => ?_
      obtain ⟨now, hmem⟩ := mem_eventsOf.mp hmem
      obtain ⟨e, he, hentry⟩ := List.mem_map.mp (List.mem_reverse.mp hmem)
      cases hentry
      obtain heq | ⟨_, heq⟩ | heq := hw.events _ he <;> cases heq
    · obtain ⟨st, es, st', h₁, -, -, hadds, -, heq'⟩ := advance_relays hadv
      have hnew : h'.history = (es.map (HistoryEntry.mk r' h.now)).reverse ++ h.history := by
        rw [heq']
        exact hadds.history
      rw [hnew] at heq
      obtain ⟨middle, rfl, hold⟩ | ⟨middle, hes, rfl⟩ := append_cons_cases heq
      · exact (ih hold hv).move hm hnew
      · rw [hes] at hnew
        exact .start (Reaches.orderly hf hr) (Reaches.deliveries_eq hf hr) hadv hnew hv

/-- A step that fails to deliver a record hands it over first, unless it drops its run. -/
theorem Relays.rejected {report : Report} (hr : Relays s r h st es st' h₁)
    (hfails : st.Fails s h (.delivery report)) :
    st' = .ended .aborted ∨ ∃ x es', es = .deliver x :: es' ∧
      (s.consumer h.deliveries).verdict = .rejects report := by
  cases hfails with
  | delivery ha hv =>
    cases hr with
    | rests _ hleft =>
      rw [RunStatus.left, ha] at hleft
      cases hleft
    | receives ha₂ =>
      rw [ha] at ha₂
      cases ha₂
    | hands _ haccepts =>
      rw [hv] at haccepts
      cases haccepts
    | cuts => exact .inr ⟨_, _, rfl, hv⟩
    | parts hres =>
      rw [RunStatus.result?, ha] at hres
      cases hres
    | drops => exact .inl rfl

/-- **A run returns the report of a record only if the record was rejected with it**, at the time
the run handed it over. -/
theorem Reaches.rejected (hf : h₀.Fresh) (hr : Reaches s h₀ h) {report : Report}
    (hst : h.status? r = some st) (hres : st.result? = some (.error (.delivery report))) :
    ∃ x, h.Rejected s h₀.deliveries r x report := by
  induction hr generalizing st with
  | refl =>
    rw [hf.status?] at hst
    cases hst
  | @tail h h' hr hm ih =>
    have later : ∀ {st}, h.status? r = some st →
        st.result? = some (.error (.delivery report)) →
        ∃ x, h'.Rejected s h₀.deliveries r x report := by
      intro st hst hres
      obtain ⟨x, hx⟩ := ih hst hres
      exact ⟨x, hx.move hm⟩
    refine hm.elim (fun hrest => ?_) (fun _ _ _ _ hw => ?_) fun r' st₁ es₁ st₁' h₁ hadv hst₁ _ hact
      heq => ?_
    · obtain heq | ⟨-, heq⟩ := hrest.status r
      · exact later (heq ▸ hst) hres
      · obtain rfl := Option.some.inj (heq.symm.trans hst)
        cases hres
    · exact later ((hw.status? r).symm.trans hst) hres
    · rw [heq, hact.status? hst₁] at hst
      split at hst
      · rename_i hrun
        subst hrun
        obtain rfl := Option.some.inj hst
        rcases (result?_calls hact.calls).2 hres with hres | hfails
        · exact later hst₁ hres
        · obtain ⟨st₂, es, st₂', h₂, hst₂, -, hadds, hrelays, rfl⟩ := advance_relays hadv
          obtain rfl := Option.some.inj (hst₁.symm.trans hst₂)
          obtain rfl | ⟨x, es', rfl, hv⟩ := hrelays.rejected hfails
          · have hend : (h₂.setStatus r' (.ended .aborted)).status? r' =
                (h₁.setStatus r' st₁').status? r' := congrArg (Host.status? r') heq
            rw [hadds.status?_setStatus hst₂, if_pos rfl, hact.status? hst₁, if_pos rfl] at hend
            obtain rfl := Option.some.inj hend
            cases hres
          · exact ⟨x, hadds.rejected (Reaches.deliveries_eq hf hr) hv⟩
      · exact later hst hres

/-! ### What was polled and what was handed over -/

/-- A run that is to be dropped has nothing left to hand over. -/
theorem ReachesUnbroken.left_of_isAborting (hf : h₀.Fresh) (hr : ReachesUnbroken s h₀ h)
    (hst : h.status? r = some st) (hab : h.isAborting r = true) : st.left = [] := by
  cases st with
  | active a =>
    rw [RunStatus.left]
    cases hs : a.stage with
    | delivering =>
      rw [ReachesUnbroken.not_isAborting hf hr hst (by rw [hs]; rfl)] at hab
      cases hab
    | _ => rfl
  | _ => rfl

/-- A step of a run keeps the balance of its records, also after one that was not accepted: from
there on it moves none. -/
theorem ReachesUnbroken.balance_step (hf : h₀.Fresh) (hr : ReachesUnbroken s h₀ h)
    (hst : h.status? r = some st) (hlive : ∀ outcome, st ≠ .ended outcome) (hadds : h.Adds r es h₁)
    (hrelays : Relays s r h st es st' h₁)
    (hold : ∃ left,
      polledRecords (eventsOf r h.history) = handedRecords (eventsOf r h.history) ++ left ∧
        (left = st.left ∨ h.Refused s h₀.deliveries r)) :
    ∃ left, polledRecords (eventsOf r h₁.history) = handedRecords (eventsOf r h₁.history) ++ left ∧
      (left = st'.left ∨ h₁.Refused s h₀.deliveries r) := by
  have hreaches := ReachesUnbroken.reaches hr
  rw [hadds.eventsOf_self]
  obtain ⟨left, hold, rfl | hrefused⟩ := hold
  · obtain ⟨left', hbalance, hleft'⟩ :=
      hrelays.delivers (ReachesUnbroken.left_of_isAborting hf hr hst) hold
    refine ⟨left', hbalance, hleft'.imp_right ?_⟩
    rintro ⟨x, es', rfl, hv⟩
    rw [Reaches.deliveries_eq hf hreaches] at hv
    exact ⟨_, _, x, _, hadds.handed, hv⟩
  · have hmono := hrefused.mono hadds.history
    obtain ⟨later, t, x, earlier, heq, hv⟩ := hrefused
    obtain ⟨st₂, hst₂, hleaves⟩ := (Reaches.cut_short hf hreaches heq hv).leaves
    obtain rfl := Option.some.inj (hst.symm.trans hst₂)
    obtain ⟨-, hparting⟩ :=
      hrelays.leaves hlive (hleaves.resolve_right fun hend => hlive _ hend.1)
    exact ⟨left, balance_still (Event.isStill_of_isParting hparting) hold, .inr hmono⟩

/-- **What a run hands over is what its polls gave**, up to what it has still to hand over, or to a
record that was not accepted. -/
theorem ReachesUnbroken.balance (hf : h₀.Fresh) (hr : ReachesUnbroken s h₀ h)
    (hst : h.status? r = some st) :
    ∃ left, polledRecords (eventsOf r h.history) = handedRecords (eventsOf r h.history) ++ left ∧
      (left = st.left ∨ h.Refused s h₀.deliveries r) := by
  induction hr generalizing st with
  | refl =>
    rw [hf.status?] at hst
    cases hst
  | @tail h h' hr hm ih =>
    -- Moves that move no record of the run, and leave it where it is.
    have stays : ∀ (es : List Event) (new : List HistoryEntry), h'.history = new ++ h.history →
        eventsOf r h'.history = es.reverse ++ eventsOf r h.history → es.all Event.isStill = true →
        h.status? r = some st →
        ∃ left, polledRecords (eventsOf r h'.history) =
            handedRecords (eventsOf r h'.history) ++ left ∧
          (left = st.left ∨ h'.Refused s h₀.deliveries r) := by
      intro es new hnew hevents hes hbefore
      obtain ⟨left, hold, hleft⟩ := ih hbefore
      rw [hevents]
      exact ⟨left, balance_still hes hold, hleft.imp_right fun hrefused => hrefused.mono hnew⟩
    refine hm.1.elim (fun hrests => ?_) (fun n write status es hw => ?_)
      fun r' _ _ _ _ hadv _ _ _ _ => ?_
    · obtain heq | ⟨hnone, heq⟩ := hrests.status r
      · exact stays [] [] hrests.history (by rw [hrests.history]; rfl) rfl (heq ▸ hst)
      · obtain rfl := Option.some.inj (heq.symm.trans hst)
        rw [hrests.history,
          (Reaches.allTraced hf (ReachesUnbroken.reaches hr)).unasked r hnone]
        exact ⟨[], rfl, .inl rfl⟩
    · have hbefore := (hw.status? r).symm.trans hst
      by_cases hrun : write.run = r
      · refine stays es _ hw.adds.history (hrun ▸ hw.adds.eventsOf_self) ?_ hbefore
        refine List.all_eq_true.mpr fun e he => ?_
        obtain rfl | ⟨_, rfl⟩ | rfl := hw.events e he <;> rfl
      · exact stays [] _ hw.adds.history (hw.adds.eventsOf_of_ne hrun) rfl hbefore
    · obtain ⟨st₁, es, st', h₁, hst₁, hlive, hadds, hrelays, rfl⟩ := advance_relays hadv
      by_cases hrun : r' = r
      · subst hrun
        rw [hadds.status?_setStatus hst₁, if_pos rfl] at hst
        obtain rfl := Option.some.inj hst
        have hstep := ReachesUnbroken.balance_step hf hr hst₁ hlive hadds hrelays (ih hst₁)
        exact hstep
      · rw [hadds.status?_setStatus hst₁, if_neg hrun] at hst
        exact stays [] _ hadds.history (hadds.eventsOf_of_ne hrun) rfl hst

/-! ### The return of a run that is on its way out -/

/-- A run that has ended takes no step. -/
theorem runOn_of_ended {outcome : RunEnd} (hst : h.status? r = some (.ended outcome)) (fuel : Nat) :
    h.runOn s r fuel = h := by
  cases fuel with
  | zero => rfl
  | succ fuel =>
    rw [runOn]
    split
    · rfl
    · rename_i h' hadv
      obtain ⟨st, -, -, -, hst', hlive, -⟩ := advance_acts hadv
      exact absurd (Option.some.inj (hst'.symm.trans hst)) (hlive outcome)

/-- **A step on the way out** gives something back, or returns. -/
theorem advance_of_result? {result : RunResult} (hab : h.isAborting r = false)
    (hst : h.status? r = some (.active a)) (hres : a.stage.result? = some result) :
    ∃ h', h.advance s r = some h' ∧
      (h'.status? r = some (.ended (.returned result)) ∨
        ∃ a', h'.status? r = some (.active a') ∧ a'.stage.result? = some result ∧
          a'.stage.holding.length < a.stage.holding.length) := by
  have releases : ∀ {a' : Active} {e : Event}, h.step s r a = .goesOn a' (h.emit r e) →
      a'.stage.result? = some result → a'.stage.holding.length < a.stage.holding.length →
      ∃ h', h.advance s r = some h' ∧
        (h'.status? r = some (.ended (.returned result)) ∨
          ∃ a', h'.status? r = some (.active a') ∧ a'.stage.result? = some result ∧
            a'.stage.holding.length < a.stage.holding.length) := by
    intro a' e hstep hres' hlt
    refine ⟨(h.emit r e).setStatus r (.active a'), ?_, .inr ⟨a', ?_, hres', hlt⟩⟩
    · rw [advance_eq_step hab hst, hstep]
      rfl
    · have hadds : h.Adds r [e] (h.emit r e) := ⟨rfl, rfl, rfl⟩
      rw [hadds.status?_setStatus hst, if_pos rfl]
  cases hs : a.stage with
  | stoppingTask result' | stoppingConnector result' | stoppingStore result' =>
    rw [hs] at hres releases
    exact releases (by rw [step, hs]) hres (by simp [Stage.holding])
  | leaving result' =>
    rw [hs] at hres
    obtain rfl := Option.some.inj hres
    obtain ⟨h₁, hleave, hruns⟩ : ∃ h₁, h.leave r result' = .ends (.returned result') h₁ ∧
        h₁.runs = h.runs := by
      cases result' <;> exact ⟨_, rfl, rfl⟩
    refine ⟨h₁.setStatus r (.ended (.returned result')), ?_, .inl ?_⟩
    · rw [advance_eq_step hab hst, step, hs]
      dsimp only
      rw [hleave]
      rfl
    · rw [status?_setStatus, if_pos rfl, status?, hruns]
      exact congrArg (Option.map fun _ => RunStatus.ended (.returned result')) hst
  | _ =>
    rw [hs] at hres
    cases hres

/-- **A run on its way out returns in its next turn**, unless it is to be dropped. -/
theorem runOn_of_result? {result : RunResult} {fuel : Nat} (hab : h.isAborting r = false)
    (hst : h.status? r = some st) (hres : st.result? = some result)
    (hfuel : 4 ≤ fuel) : (h.runOn s r fuel).status? r = some (.ended (.returned result)) := by
  have onTheWay : ∀ {fuel : Nat} {h : Host} {a : Active}, h.isAborting r = false →
      h.status? r = some (.active a) → a.stage.result? = some result →
      a.stage.holding.length < fuel →
      (h.runOn s r fuel).status? r = some (.ended (.returned result)) := by
    intro fuel
    induction fuel with
    | zero => exact fun _ _ _ hlt => absurd hlt (Nat.not_lt_zero _)
    | succ fuel ih =>
      intro h a hab hst hres hlt
      obtain ⟨h', hadv, hend | ⟨a', hst', hres', hless⟩⟩ := advance_of_result? (s := s) hab hst hres
      · rw [runOn, hadv]
        dsimp only
        rw [runOn_of_ended hend, hend]
      · rw [runOn, hadv]
        exact ih ((isAborting_advance hadv r).trans hab) hst' hres' (by omega)
  cases st with
  | requested => cases hres
  | active a =>
    refine onTheWay hab hst hres (Nat.lt_of_lt_of_le ?_ hfuel)
    have hle := a.stage.holding_prefix.length_le
    rw [List.length_reverse] at hle
    exact Nat.lt_succ_of_le hle
  | ended outcome =>
    rw [runOn_of_ended hst, hst]
    cases outcome with
    | returned result' => rw [Option.some.inj hres]
    | panicked | aborted => cases hres

/-- A fold that never goes down ends no lower than it starts. -/
theorem le_foldl {α : Type} {f : Nat → α → Nat} (hf : ∀ n x, n ≤ f n x) :
    ∀ (xs : List α) (n : Nat), n ≤ xs.foldl f n
  | [], n => Nat.le_refl n
  | x :: xs, n => Nat.le_trans (hf n x) (le_foldl hf xs (f n x))

/-- A turn is long enough to leave. -/
theorem le_stepBound (h : Host) : 64 ≤ h.stepBound := by
  refine le_foldl (fun n result => ?_) h.feed 64
  cases result <;> dsimp only <;> omega

/-! ### Delivery is a prefix -/

/-- **A run delivers a prefix of what was polled.** What it has handed over is what its polls gave,
in their order and each record once, up to the records that it has still to hand over; unless the
consumer did not accept a record. After such a record the run only parts: it polls nothing, consults
nobody and submits nothing, and no write of it ever acts on the store again. If the consumer
rejected the record, the run returns the report of that in its next turn, unless it is dropped. -/
theorem ReachesUnbroken.delivers_prefix (hf : h₀.Fresh) (hr : ReachesUnbroken s h₀ h)
    (hst : h.status? r = some st) :
    (∃ left, polledRecords (eventsOf r h.history) = handedRecords (eventsOf r h.history) ++ left ∧
      (left = st.left ∨ h.Refused s h₀.deliveries r)) ∧
    ∀ later t x earlier, h.history = later ++ ⟨r, t, .deliver x⟩ :: earlier →
      s.verdictAfter h₀.deliveries earlier ≠ .accepts →
      ((s.verdictAfter h₀.deliveries earlier).Leaves st ∨
          st = .ended .aborted ∧ h.isAborting r = true) ∧
        (∀ e ∈ eventsOf r later, e.isParting = true) ∧
        (∀ (n : Nat) (w : Write) (h' : Host), h.writes[n]? = some w → w.run = r →
          Reaches s h h' → h'.turnWrite n = h') ∧
        ∀ report, s.verdictAfter h₀.deliveries earlier = .rejects report →
          h.isAborting r = false → (h.turn s (.run r)).status? r =
            some (.ended (.returned (.error (.delivery report)))) := by
  have hreaches := ReachesUnbroken.reaches hr
  refine ⟨ReachesUnbroken.balance hf hr hst, fun later t x earlier heq hv => ?_⟩
  have hcut := Reaches.cut_short hf hreaches heq hv
  obtain ⟨st', hst', hleaves⟩ := hcut.leaves
  obtain rfl := Option.some.inj (hst.symm.trans hst')
  refine ⟨hleaves, List.all_eq_true.mp hcut.parting, fun n w h' hw hrun hr' => ?_,
    fun report hreport hab => ?_⟩
  · have hover : h.IsOver n := ⟨w, hw, hcut.idle n w hw hrun⟩
    exact (hover.reaches hr').turnWrite
  · obtain hleaves | ⟨-, hdropped⟩ := hleaves
    · rw [hreport] at hleaves
      exact runOn_of_result? hab hst hleaves (Nat.le_trans (by decide) h.le_stepBound)
    · rw [hab] at hdropped
      cases hdropped

/-- The consumer takes three nanoseconds over a first record, and rejects the first record of a
second batch, while nothing is committed yet. The run has just stopped its task; in its next turn it
returns the report. -/
theorem delivers_prefix_until_rejected :
    let s : Setup :=
      { config := { name := "engine", connectorClass := "source", flushTimeout := 5000
                    keyConverter := .json, valueConverter := .json, properties := [] }
        registry := Registry.empty.register "source" {}
        policy := .every 100
        consumer := fun n => if n = 1 then { verdict := .rejects { shown := "full" } } else {} }
    let x (row : Nat) : Record :=
      { partition := [("shard", .number (.integer 1))]
        offset := [("row", .number (.integer row))]
        topic := "rows", key := none, value := .null, timestamp := none }
    let h₀ : Host := { feed := [.batch [x 1], .batch [x 2, x 3], .batch [x 4]] }
    let h₁ := h₀.request.runOn s 0 8
    let h := { h₁ with now := 3 }.runOn s 0 6
    handedRecords (eventsOf 0 h.history) = [x 1, x 2] ∧
      polledRecords (eventsOf 0 h.history) = handedRecords (eventsOf 0 h.history) ++ [x 3] ∧
      (∀ e ∈ eventsOf 0 (h.history.take 1), e.isParting = true) ∧
      (h.turn s (.run 0)).status? 0 =
        some (.ended (.returned (.error (.delivery { shown := "full" })))) := by
  intro s x h₀ h₁ h
  have hf : h₀.Fresh := ⟨rfl, rfl, rfl, rfl⟩
  have hr₁ : ReachesUnbroken s h₀ h₁ :=
    (ReachesPromptly.runOn (ReachesPromptly.request .refl) 0 8).unbroken
  have hr : ReachesUnbroken s h₀ h := ReachesUnbroken.runOn (hr₁.pass (by decide +kernel)) 0 6
  have hhanded : handedRecords (eventsOf 0 h.history) = [x 1, x 2] := by decide +kernel
  have hpolled : polledRecords (eventsOf 0 h.history) = [x 1, x 2] ++ [x 3] := by decide +kernel
  have hentry : h.history[1]? = some ⟨0, 3, .deliver (x 2)⟩ := rfl
  have hv : s.verdictAfter h₀.deliveries (h.history.drop 2) = .rejects { shown := "full" } := by
    decide +kernel
  have hab : h.isAborting 0 = false := by decide +kernel
  obtain ⟨st, hst⟩ := Option.isSome_iff_exists.mp
    (show (h.status? 0).isSome = true by decide +kernel)
  obtain ⟨⟨left, hbalance, -⟩, hcut⟩ := ReachesUnbroken.delivers_prefix hf hr hst
  obtain ⟨-, hparting, -, hreturns⟩ :=
    hcut _ _ _ _ (eq_take_append_cons_drop hentry) (by rw [hv]; nofun)
  obtain rfl : left = [x 3] := by
    rw [hhanded, hpolled] at hbalance
    exact (List.append_cancel_left hbalance).symm
  exact ⟨hhanded, hbalance, hparting, hreturns _ hv hab⟩

/-- **The consumer may cut a batch short without rejecting a record**, even under an executor that
is never late. If it panics, the rest of the batch is not handed over. -/
theorem not_delivers_prefix : ¬ ∀ (s : Setup) (h₀ h : Host) (r : Nat) (outcome : RunEnd), h₀.Fresh →
    ReachesPromptly s h₀ h → h.status? r = some (.ended outcome) →
    ∃ left, polledRecords (eventsOf r h.history) = handedRecords (eventsOf r h.history) ++ left ∧
      (left = [] ∨ ∃ later t x earlier report,
        h.history = later ++ ⟨r, t, .deliver x⟩ :: earlier ∧
          s.verdictAfter h₀.deliveries earlier = .rejects report) := by
  intro hall
  let s : Setup :=
    { config := { name := "engine", connectorClass := "source", flushTimeout := 5000
                  keyConverter := .json, valueConverter := .json, properties := [] }
      registry := Registry.empty.register "source" {}
      consumer := fun n => if n = 1 then { verdict := .panics } else {} }
  let x (row : Nat) : Record :=
    { partition := [("shard", .number (.integer 1))]
      offset := [("row", .number (.integer row))]
      topic := "rows", key := none, value := .null, timestamp := none }
  let h₀ : Host := { feed := [.batch [x 1, x 2, x 3]] }
  let h := h₀.request.runOn s 0 25
  have hf : h₀.Fresh := ⟨rfl, rfl, rfl, rfl⟩
  have hp : ReachesPromptly s h₀ h :=
    ReachesPromptly.runOn (ReachesPromptly.request .refl) 0 25
  obtain ⟨left, hbalance, rfl | ⟨_, _, _, earlier, report, -, hv⟩⟩ :=
    hall s h₀ h 0 .panicked hf hp rfl
  · -- The third record was polled, and not handed over.
    have hpolled : polledRecords (eventsOf 0 h.history) = [x 1, x 2, x 3] := by decide +kernel
    have hhanded : handedRecords (eventsOf 0 h.history) = [x 1, x 2] := by decide +kernel
    rw [hpolled, hhanded] at hbalance
    cases hbalance
  · -- No record was rejected.
    rw [Setup.verdictAfter] at hv
    by_cases hn : h₀.deliveries + handovers earlier = 1 <;> simp [s, hn] at hv

end Host

end ChangeCapture
