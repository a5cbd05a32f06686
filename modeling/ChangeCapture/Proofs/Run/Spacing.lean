import ChangeCapture.Proofs.Policy
import ChangeCapture.Proofs.Run.Tally

/-!
# How far apart confirmed flushes are

A policy that waits for an interval is asked with the time since the last confirmed flush, so a run
that waits for a flush has let the interval pass since then, and can only wait longer. The clock is
set anew where a flush is confirmed, at the instant of the confirmation, and nowhere else: flushes
that fail, are too late or are interrupted leave it alone, however many they are.

So no flush is confirmed before the interval has passed since the last one was, or since the loop
began.

## Main definitions

* `KeepsDistance`: a confirmed flush that is an interval away from what it is measured from.

## Main results

* `Host.Reaches.chronological` — the history is in the order of time.
* `Host.Reaches.waited` — a run that waits for a flush has waited for the interval.
* `Host.Reaches.keeps_distance` — confirmed flushes keep their distance, and attempts leave the
  clock alone.
-/

namespace ChangeCapture

/-! ### The order of time -/

/-- Whether nothing in a history is later than an entry. -/
def IsLatest (x : HistoryEntry) (earlier : List HistoryEntry) : Prop :=
  ∀ y ∈ earlier, y.instant ≤ x.instant

/-- Where a run has set its counters anew for the last time. -/
theorem exists_reset {r t : Nat} {history : List HistoryEntry}
    (h : resetInstant? r history = some t) :
    ∃ newer x older, history = newer ++ x :: older ∧ x.run = r ∧ x.event.isReset = true ∧
      x.instant = t ∧ ∀ y ∈ newer, y.run = r → y.event.isReset = false := by
  obtain ⟨x, hfind, rfl⟩ := Option.map_eq_some_iff.mp h
  obtain ⟨hx, newer, older, rfl, hnewer⟩ := List.find?_eq_some_iff_append.mp hfind
  rw [Bool.and_eq_true, decide_eq_true_eq] at hx
  refine ⟨newer, x, older, rfl, hx.1, hx.2, rfl, fun y hy hrun => ?_⟩
  simpa [hrun] using hnewer y hy

/-- No reset of a run is later than its last one. -/
theorem le_of_resetInstant? {r t : Nat} {history : List HistoryEntry} {y : HistoryEntry}
    (hall : Throughout IsLatest history) (h : resetInstant? r history = some t)
    (hy : y ∈ history) (hrun : y.run = r) (hreset : y.event.isReset = true) : y.instant ≤ t := by
  obtain ⟨newer, x, older, rfl, -, -, rfl, hnewer⟩ := exists_reset h
  rcases List.mem_append.mp hy with hy | hy
  · rw [hnewer y hy hrun] at hreset
    cases hreset
  · rcases List.mem_cons.mp hy with rfl | hy
    · exact Nat.le_refl _
    · exact hall.split y hy

/-- **Whether a confirmed flush is an interval away** from the last one, or from the beginning of
the loop. -/
def KeepsDistance (interval : Nat) (x : HistoryEntry) (earlier : List HistoryEntry) : Prop :=
  ∀ n, x.event = .committed n →
    ∃ t, resetInstant? x.run earlier = some t ∧ t + interval ≤ x.instant

/-- A run that has set its counters anew has begun its loop. -/
theorem exists_loopBegun {interval : Nat} {history : List HistoryEntry} {x : HistoryEntry}
    (hall : Throughout (KeepsDistance interval) history) (hx : x ∈ history)
    (hreset : x.event.isReset = true) : ∃ t, ⟨x.run, t, .loopBegun⟩ ∈ history := by
  induction history generalizing x with
  | nil => cases hx
  | cons y older ih =>
    -- A loop that was begun before the newest entry has been begun.
    have before : ∀ z ∈ older, z.event.isReset = true → z.run = x.run →
        ∃ t, ⟨x.run, t, .loopBegun⟩ ∈ y :: older := by
      intro z hz hreset hrun
      obtain ⟨t, ht⟩ := ih hall.2 hz hreset
      exact ⟨t, List.mem_cons_of_mem _ (hrun ▸ ht)⟩
    rcases List.mem_cons.mp hx with rfl | hx
    · obtain ⟨run, instant, event⟩ := x
      cases event with
      | loopBegun => exact ⟨instant, List.mem_cons_self⟩
      | committed n =>
        obtain ⟨t, ht, -⟩ := hall.1 n rfl
        obtain ⟨newer, z, older', rfl, hrun, hz, -⟩ := exists_reset ht
        exact before z (by simp) hz hrun
      | _ => cases hreset
    · exact before x hx hreset rfl

namespace Host

variable {s : Setup} {r n deadline interval : Nat} {h h' h₀ h₁ : Host} {st st' : RunStatus}
  {es : List Event} {a : Active} {final : Bool}

/-- **Whether the history is in the order of time**, and all of it is past. -/
structure Chronological (h : Host) : Prop where
  ordered : Throughout IsLatest h.history
  past : ∀ x ∈ h.history, x.instant ≤ h.now

/-- Events that are added happen now. -/
theorem Chronological.adds (hc : h.Chronological) (hadds : h.Adds r es h₁) : h₁.Chronological where
  ordered := by
    refine hc.ordered.adds_in_order hadds fun es₁ e es₂ _ y hy => ?_
    rcases List.mem_append.mp hy with hy | hy
    · obtain ⟨e', -, rfl⟩ := List.mem_map.mp (List.mem_reverse.mp hy)
      exact Nat.le_refl _
    · exact hc.past y hy
  past x hx := by
    rw [hadds.now]
    rw [hadds.history] at hx
    rcases List.mem_append.mp hx with hx | hx
    · obtain ⟨e, -, rfl⟩ := List.mem_map.mp (List.mem_reverse.mp hx)
      exact Nat.le_refl _
    · exact hc.past x hx

/-- **The history is in the order of time.** -/
theorem Reaches.chronological (hf : h₀.Fresh) (hr : Reaches s h₀ h) : h.Chronological := by
  induction hr with
  | refl =>
    refine ⟨by rw [hf.history]; trivial, fun x hx => ?_⟩
    rw [hf.history] at hx
    cases hx
  | @tail h h' hr hm ih =>
    refine hm.elim (fun hrests => ?_) (fun _ _ _ _ hw => ih.adds hw.adds)
      fun r st es st' h₁ _ _ _ hact heq => ?_
    · exact ⟨hrests.history ▸ ih.ordered, fun x hx =>
        Nat.le_trans (ih.past x (hrests.history ▸ hx)) hm.now_le⟩
    · subst heq
      exact ⟨(ih.adds hact.adds).ordered, (ih.adds hact.adds).past⟩

/-! ### Waiting for the interval -/

/-- **A run that waits for a flush has waited for the interval** since its last confirmed one. -/
theorem Reaches.waited (hp : s.policy.Spaced interval) (hf : h₀.Fresh) (hr : Reaches s h₀ h)
    (hst : h.status? r = some (.active a)) (ha : a.stage = .flushing n deadline final) :
    a.lastCommit + interval ≤ h.now := by
  have hlong : interval ≤ h.now - a.lastCommit := by
    refine standing (P := fun h a => a.stage = .flushing n deadline final →
      interval ≤ h.now - a.lastCommit) hf id ?_ ?_ hr hst ha
    · intro h h' a hm _ hold ha
      exact Nat.le_trans (hold ha) (Nat.sub_le_sub_right hm.now_le _)
    · intro h h' a hadv hst' ha
      obtain ⟨st, es, st', h₁, hst, hadds, hc, rfl⟩ := advance_counts hadv
      rw [hadds.status?_setStatus hst, if_pos rfl] at hst'
      obtain rfl := Option.some.inj hst'
      obtain ⟨b, entries, -, -, hfires, -, hcounts⟩ := hc.of_flushing ha
      rw [hcounts.lastCommit, show (h₁.setStatus r (.active a)).now = h.now from hadds.now]
      exact hp.le_of_fires hfires
  have hpast : a.lastCommit ≤ h.now := by
    refine ((Reaches.tallied hf hr).active r a hst ?_).past
    have hcommit : a.stage.isCommitting = true := by rw [ha]; rfl
    rcases Stage.phase_of_isCommitting hcommit with hphase | hphase <;> rw [hphase] <;> rfl
  omega

/-- A flush is confirmed for a run that waits for it, and nothing before sets the counters anew. -/
theorem Counts.confirms {es₁ es₂ : List Event}
    (hc : Counts s h st (es₁ ++ .committed n :: es₂) st') :
    ∃ a deadline final, st = .active a ∧ a.stage = .flushing n deadline final ∧
      es₁.all Event.leavesCounters = true := by
  obtain ⟨a, deadline, final, rfl, ha⟩ := hc.closes (n := n) (.inl (by simp))
  refine ⟨a, deadline, final, rfl, ha, ?_⟩
  generalize hes : es₁ ++ .committed n :: es₂ = es at hc
  have hmem : .committed n ∈ es := hes ▸ List.mem_append_right _ List.mem_cons_self
  have uncounted : ∀ {es : List Event}, es.all Event.isUncounted = true → .committed n ∉ es :=
    fun hall => Event.not_mem_of_all hall rfl
  cases hc with
  | ends hall | keeps hall => exact absurd hmem (uncounted hall)
  | begins hall | heeds hall => exact absurd (by simpa using hmem) (uncounted hall)
  | delivers hs | skips hs | submits hs =>
    rw [ha] at hs
    cases hs
  | givesUp => simp at hmem
  | commits _ hall =>
    obtain ⟨middle, rfl, hlast⟩ | ⟨middle, rfl, -⟩ := append_cons_cases hes.symm
    · obtain rfl : middle = [] := by cases middle <;> simp_all
      rw [List.append_nil]
      exact Event.leavesCounters_uncounted hall
    · exact absurd (by simp) (uncounted hall)

/-! ### Keeping the distance -/

/-- **Every confirmed flush is an interval away** from what it is measured from. -/
theorem Reaches.distant (hp : s.policy.Spaced interval) (hf : h₀.Fresh) (hr : Reaches s h₀ h) :
    Throughout (KeepsDistance interval) h.history := by
  induction hr with
  | refl =>
    rw [hf.history]
    trivial
  | @tail h h' hr hm ih =>
    refine hm.elim (fun hrests => hrests.history ▸ ih) (fun m w status es hw => ?_)
      fun r st es st' h₁ hadv _ _ _ _ => ?_
    · refine ih.adds hw.adds fun e he between n hn => ?_
      rcases hw.events e he with rfl | ⟨_, rfl⟩ | rfl <;> cases hn
    · obtain ⟨st, es, st', h₁, hst, hadds, hc, rfl⟩ := advance_counts hadv
      change Throughout (KeepsDistance interval) h₁.history
      refine ih.adds_in_order hadds fun es₁ e es₂ heq n hn => ?_
      obtain rfl : e = .committed n := hn
      subst heq
      obtain ⟨a, deadline, final, rfl, ha, hes₁⟩ := hc.confirms
      have hloop : a.stage.phase.isLooping = true := by
        rw [ha]
        cases final <;> rfl
      refine ⟨a.lastCommit, ?_, Reaches.waited hp hf hr hst ha⟩
      have hbefore : h.Adds r es₁ { h₁ with
          history := (es₁.map (HistoryEntry.mk r h.now)).reverse ++ h.history } :=
        ⟨rfl, hadds.runs, hadds.now⟩
      exact (hbefore.resetInstant? fun _ => Event.not_isReset_of_all hes₁).trans
        ((Reaches.tallied hf hr).active r a hst hloop).since

/-- **Confirmed flushes keep their distance.** Under a policy that waits for an interval, a flush is
confirmed only where the loop of its run has begun, and no less than the interval after that and
after every flush of the run that was confirmed before.

Attempts that are not confirmed do not push the clock: whenever the policy is consulted it is given
the time since the last confirmed flush, or since the loop began, and the records delivered since;
so a periodic policy agrees as soon as there are records and the interval has passed since then. -/
theorem Reaches.keeps_distance (hp : s.policy.Spaced interval) (hf : h₀.Fresh)
    (hr : Reaches s h₀ h) (r : Nat) :
    (∀ later t n older, h.history = later ++ ⟨r, t, .committed n⟩ :: older →
      (∃ t₀, ⟨r, t₀, .loopBegun⟩ ∈ older) ∧
        ∀ x ∈ older, x.run = r → x.event.isReset = true → x.instant + interval ≤ t) ∧
    ∀ later t records elapsed fired older,
      h.history = later ++ ⟨r, t, .consulted records elapsed fired⟩ :: older →
        records = recordsSince (eventsOf r older) ∧
          ∃ t₀, resetInstant? r older = some t₀ ∧ t₀ + elapsed = t ∧
            fired = s.policy.fires records elapsed ∧
            (s.policy = .periodic interval →
              (fired = true ↔ 0 < records ∧ t₀ + interval ≤ t)) := by
  have hdistant := Reaches.distant hp hf hr
  have hordered := (Reaches.chronological hf hr).ordered
  have hconsults := (Reaches.tallied hf hr).consults
  refine ⟨fun later t n older heq => ?_, fun later t records elapsed fired older heq => ?_⟩
  · rw [heq] at hdistant hordered
    obtain ⟨t₀, ht₀, hle⟩ := hdistant.split n rfl
    refine ⟨?_, fun x hx hrun hreset => ?_⟩
    · obtain ⟨newer, x, earlier, rfl, rfl, hreset, -⟩ := exists_reset ht₀
      exact exists_loopBegun hdistant.older.2 (by simp) hreset
    · exact Nat.le_trans
        (Nat.add_le_add_right (le_of_resetInstant? hordered.older.2 ht₀ hx hrun hreset) _) hle
  · rw [heq] at hconsults
    obtain ⟨hrecords, ⟨t₀, ht₀, helapsed⟩, hfired⟩ := hconsults.split records elapsed fired rfl
    refine ⟨hrecords, t₀, ht₀, helapsed, hfired, fun hperiodic => ?_⟩
    obtain rfl : t₀ + elapsed = t := helapsed
    rw [hfired, hperiodic]
    simp [Policy.fires]

/-- A flush is given up after twelve nanoseconds; the next one is confirmed three later, and the one
after that eleven later. -/
theorem keeps_distance_after_failed_write :
    let s : Setup :=
      { config := { name := "engine", connectorClass := "source", flushTimeout := 5000
                    keyConverter := .json, valueConverter := .json, properties := [] }
        registry := Registry.empty.register "source" {}
        policy := .both .always (.periodic 10)
        consumer := fun _ => {} }
    let x : Record :=
      { partition := [("shard", .number (.integer 1))], offset := [("row", .number (.integer 7))]
        topic := "rows", key := none, value := .null, timestamp := none }
    let plan : StorePlan :=
      { sets := fun call => if call = 0 then .answers 0 (some .flushAborted) else .succeeds }
    let h₀ : Host := { feed := [], store := { plan } }
    let polls (h : Host) (now : Nat) : Host :=
      ({ h with now }.provide (.batch [x])).runOn s 0 20
    let h₁ := polls (h₀.request.runOn s 0 20) 12
    let h₂ := polls ((h₁.turnWrite 0).runOn s 0 20) 15
    let h₃ := polls ((h₂.turnWrite 1).runOn s 0 20) 26
    let h := (h₃.turnWrite 2).runOn s 0 20
    ((h.history.filter fun x => x.event.isReset).map HistoryEntry.instant = [26, 15, 0] ∧
      (eventsOf 0 h.history).filterMap Event.consultation? =
        [(1, 11, true), (2, 15, true), (1, 12, true)]) ∧
    (∀ later t n older, h.history = later ++ ⟨0, t, .committed n⟩ :: older →
      (∃ t₀, ⟨0, t₀, .loopBegun⟩ ∈ older) ∧
        ∀ x ∈ older, x.run = 0 → x.event.isReset = true → x.instant + 10 ≤ t) ∧
    ∀ later t records elapsed fired older,
      h.history = later ++ ⟨0, t, .consulted records elapsed fired⟩ :: older →
        records = recordsSince (eventsOf 0 older) ∧
          ∃ t₀, resetInstant? 0 older = some t₀ ∧ t₀ + elapsed = t ∧
            fired = s.policy.fires records elapsed ∧
            (s.policy = .periodic 10 → (fired = true ↔ 0 < records ∧ t₀ + 10 ≤ t)) := by
  intro s x plan h₀ polls h₁ h₂ h₃ h
  have hf : h₀.Fresh := ⟨rfl, rfl, rfl, rfl⟩
  have hpolls : ∀ {h : Host} {now : Nat}, Reaches s h₀ h → h.now ≤ now →
      Reaches s h₀ (polls h now) := fun hr hnow =>
    Reaches.runOn (.tail (.tail hr (.pass hnow)) (.provide _)) 0 20
  have hwrites : ∀ {h : Host} (n : Nat), Reaches s h₀ h →
      Reaches s h₀ ((h.turnWrite n).runOn s 0 20) := fun n hr =>
    Reaches.runOn (.tail hr (.write n)) 0 20
  have hr₁ : Reaches s h₀ h₁ :=
    hpolls (Reaches.runOn (.tail .refl .request) 0 20) (by decide +kernel)
  have hr₂ : Reaches s h₀ h₂ := hpolls (hwrites 0 hr₁) (by decide +kernel)
  have hr₃ : Reaches s h₀ h₃ := hpolls (hwrites 1 hr₂) (by decide +kernel)
  have hp : s.policy.Spaced 10 := Or.inr (Nat.le_refl 10)
  exact ⟨by decide +kernel, Reaches.keeps_distance hp hf (hwrites 2 hr₃) 0⟩

end Host

end ChangeCapture
