import ChangeCapture.Proofs.Run.Meters

/-!
# The gauge across runs

The gauge of pending records is set where a batch is delivered and where a flush is confirmed. A run
counts its records anew from where its loop begins, but that sets no gauge. So the gauge shows what
a run counts from its first batch on, and before that still what the runs before it have left: the
records that the last of them to deliver anything left uncommitted.

## Main definitions

* `gauge`: the gauge, read off the history.
* `BeginsLast`: the last loop to begin.

## Main results

* `Host.Reaches.shows_pending` — what the gauge shows while a run is in its loop.
-/

namespace ChangeCapture

/-! ### The gauge of a history -/

/-- Whether an event sets the gauge. -/
def Event.setsGauge : Event → Bool
  | .delivered _ | .committed _ => true
  | _ => false

/-- **What the gauge shows after a history**, given what it showed at first: the records that a run
had delivered since its last confirmed flush, when it last delivered a batch or confirmed a flush.
-/
def gauge (first : Int) : List HistoryEntry → Int
  | [] => first
  | x :: earlier =>
    if x.event.setsGauge then recordsSince (eventsOf x.run (x :: earlier)) else gauge first earlier

/-- The metrics of a history show its gauge. -/
theorem recordsPending_metered (m : Metrics) (history : List HistoryEntry) :
    (metered m history).recordsPending = gauge m.recordsPending history := by
  induction history with
  | nil => rfl
  | cons x earlier ih =>
    obtain ⟨r, t, e⟩ := x
    cases e with
    | delivered | committed => simp [metered, Event.meter, gauge, eventsOf, recordsSince,
        Event.setsGauge, Metrics.setPending]
    | _ => exact ih

/-- Entries that do not set the gauge may be added to a history. -/
theorem gauge_append {first : Int} {newer older : List HistoryEntry}
    (h : ∀ x ∈ newer, x.event.setsGauge = false) :
    gauge first (newer ++ older) = gauge first older := by
  induction newer with
  | nil => rfl
  | cons x newer ih =>
    rw [List.cons_append, gauge, h x List.mem_cons_self, if_neg Bool.false_ne_true]
    exact ih fun y hy => h y (List.mem_cons_of_mem _ hy)

/-! ### The last loop to begin -/

/-- **Whether the loop of a run was the last to begin**, and when: since then it began no other, and
only the run itself has set the gauge. -/
structure BeginsLast (r : Nat) (later earlier history : List HistoryEntry) (t : Nat) : Prop where
  split : history = later ++ ⟨r, t, .loopBegun⟩ :: earlier
  once : .loopBegun ∉ eventsOf r later
  own : ∀ x ∈ later, x.event.setsGauge = true → x.run = r

namespace BeginsLast

variable {r t : Nat} {later earlier history : List HistoryEntry} (first : Int)

/-- Until the run delivers a batch, the gauge shows what it showed when the loop began, and the run
counts nothing. -/
theorem of_not_set (h : BeginsLast r later earlier history t)
    (hno : ∀ e ∈ eventsOf r later, e.setsGauge = false) :
    gauge first history = gauge first earlier ∧ recordsSince (eventsOf r history) = 0 := by
  have hnone : ∀ x ∈ later, x.event.setsGauge = false := by
    intro x hx
    by_contra hset
    have hset : x.event.setsGauge = true := Bool.not_eq_false _ ▸ hset
    obtain rfl := h.own x hx hset
    rw [hno _ (mem_eventsOf.mpr ⟨x.instant, hx⟩)] at hset
    cases hset
  rw [h.split]
  refine ⟨gauge_append hnone, ?_⟩
  rw [eventsOf_append, recordsSince_append]
  · simp [eventsOf, recordsSince]
  · refine List.all_eq_true.mpr fun e he => ?_
    have hset := hno e he
    cases e <;> first | rfl | exact absurd he h.once | cases hset

/-- From its first batch on, the gauge shows what the run counts. -/
theorem of_set (h : BeginsLast r later earlier history t)
    (hset : ∃ e ∈ eventsOf r later, e.setsGauge = true) :
    gauge first history = recordsSince (eventsOf r history) := by
  obtain ⟨hsplit, honce, hown⟩ := h
  subst hsplit
  induction later with
  | nil => simp [eventsOf] at hset
  | cons x later ih =>
    have hown' : ∀ y ∈ later, y.event.setsGauge = true → y.run = r := fun y hy =>
      hown y (List.mem_cons_of_mem _ hy)
    rw [List.cons_append, gauge]
    split
    · rename_i hx
      rw [hown x List.mem_cons_self hx]
    · rename_i hx
      have hx : x.event.setsGauge = false := Bool.eq_false_iff.mpr hx
      by_cases hrun : x.run = r
      · -- Neither does the entry set the gauge nor does the run begin anew with it.
        have hcons : ∀ l, eventsOf r (x :: l) = x.event :: eventsOf r l := fun l => by
          simp [eventsOf, hrun]
        rw [hcons] at honce hset ⊢
        rw [List.mem_cons, not_or] at honce
        rw [ih (by simpa [hx] using hset) honce.2 hown']
        have hleaves : [x.event].all Event.leavesCounters = true := by
          obtain ⟨hne, -⟩ := honce
          generalize x.event = e at hne hx
          cases e <;> first | rfl | exact absurd rfl hne | cases hx
        exact congrArg Nat.cast (recordsSince_append hleaves).symm
      · have hcons : ∀ l, eventsOf r (x :: l) = eventsOf r l := fun l => by simp [eventsOf, hrun]
        rw [hcons] at honce hset ⊢
        exact ih hset honce hown'

/-- More entries are added, none of which is a loop of the run that begins, and of which only the
run itself sets the gauge. -/
theorem append (h : BeginsLast r later earlier history t) {newer : List HistoryEntry}
    (honce : .loopBegun ∉ eventsOf r newer)
    (hown : ∀ x ∈ newer, x.event.setsGauge = true → x.run = r) :
    BeginsLast r (newer ++ later) earlier (newer ++ history) t where
  split := by rw [h.split, List.append_assoc]
  once := by
    rw [eventsOf_append, List.mem_append, not_or]
    exact ⟨honce, h.once⟩
  own x hx := (List.mem_append.mp hx).elim (hown x) (h.own x)

end BeginsLast

namespace Host

variable {s : Setup} {r : Nat} {h h' h₀ h₁ : Host} {a a' : Active} {es : List Event}
    {st st' : RunStatus}

/-! ### Steps -/

/-- A run that is in its loop after a step was so before, or its loop begins with the step. -/
theorem Counts.loops_cases (hc : Counts s h (.active a) es (.active a'))
    (hloop : a'.stage.phase.isLooping = true) :
    a.stage.phase.isLooping = true ∨ ∃ es', es = es' ++ [.loopBegun] := by
  have commits : a.stage.isCommitting = true → a.stage.phase.isLooping = true := by
    intro hcommit
    rcases Stage.phase_of_isCommitting hcommit with hp | hp <;> rw [hp] <;> rfl
  cases hc with
  | keeps _ _ _ hphase =>
    rcases hphase with heq | ⟨-, result, heq, -⟩
    · exact .inl (heq ▸ hloop)
    · rw [heq] at hloop
      cases hloop
  | begins => exact .inr ⟨_, rfl⟩
  | delivers ha => exact .inl (by rw [ha]; rfl)
  | heeds _ ha => exact .inl (by rcases ha with ha | ha <;> rw [ha] <;> rfl)
  | skips ha | submits ha | commits ha | givesUp ha => exact .inl (commits (by rw [ha]; rfl))

/-- The loop of a run begins once. -/
theorem Counts.loopBegun_not_mem (hc : Counts s h (.active a) es st')
    (hloop : a.stage.phase.isLooping = true) : .loopBegun ∉ es := by
  have uncounted : ∀ {es : List Event}, es.all Event.isUncounted = true → .loopBegun ∉ es :=
    fun hes => Event.not_mem_of_all hes rfl
  have asked : .loopBegun ∉ consultation s h.now a := by simp [consultation]
  cases hc with
  | ends hes | keeps hes => exact uncounted hes
  | begins _ ha =>
    rw [ha] at hloop
    cases hloop
  | delivers | givesUp => simp
  | heeds hes | commits _ hes => simpa using uncounted hes
  | skips _ _ hes => simpa using ⟨asked, uncounted hes⟩
  | submits => simpa using asked

/-- A run that is not active sets no gauge. -/
theorem Counts.setsNone (hc : Counts s h .requested es st') {e : Event} (he : e ∈ es) :
    e.setsGauge = false := by
  have huncounted : es.all Event.isUncounted = true := by
    cases hc with
    | starts hes | ends hes => exact hes
  have hkind := List.all_eq_true.mp huncounted e he
  cases e <;> first | rfl | cases hkind

/-! ### Every host -/

/-- Whether the loop of a run was the last to begin. -/
def LoopsLast (r : Nat) (h : Host) : Prop :=
  ∃ later earlier t, BeginsLast r later earlier h.history t

/-- A step of any run keeps the loop of a run the last to begin, if it begins none of it and sets no
gauge that is not its own. -/
theorem LoopsLast.adds (hl : h.LoopsLast r) {r' : Nat} {es : List Event} (hadds : h.Adds r' es h₁)
    (hes : ∀ e ∈ es, (r' = r → e ≠ .loopBegun) ∧ (e.setsGauge = true → r' = r)) :
    h₁.LoopsLast r := by
  obtain ⟨later, earlier, t, hlast⟩ := hl
  rw [LoopsLast, hadds.history]
  refine ⟨_, earlier, t, hlast.append ?_ ?_⟩
  · intro hm
    obtain ⟨now, hm⟩ := mem_eventsOf.mp hm
    obtain ⟨e, he, heq⟩ := List.mem_map.mp (List.mem_reverse.mp hm)
    cases heq
    exact (hes _ he).1 rfl rfl
  · intro x hx hset
    obtain ⟨e, he, rfl⟩ := List.mem_map.mp (List.mem_reverse.mp hx)
    exact (hes e he).2 hset

/-- **The loop of a run in its loop was the last to begin.** -/
theorem Reaches.loopsLast (hf : h₀.Fresh) (hr : Reaches s h₀ h)
    (hst : h.status? r = some (.active a)) (hloop : a.stage.phase.isLooping = true) :
    h.LoopsLast r := by
  induction hr generalizing a with
  | refl =>
    rw [hf.status?] at hst
    cases hst
  | @tail h h' hr hm ih =>
    refine hm.elim (fun hrests => ?_) (fun n w status es hw => ?_) fun r' _ _ _ _ hadv _ _ _ _ => ?_
    · rw [LoopsLast, hrests.history]
      exact ih (hrests.active hst) hloop
    · refine (ih ((hw.status? r).symm.trans hst) hloop).adds hw.adds fun e he => ?_
      obtain rfl | ⟨_, rfl⟩ | rfl := hw.events e he <;> exact ⟨fun _ => nofun, nofun⟩
    · obtain ⟨st, es, st', h₁, hst₁, hadds, hc, rfl⟩ := advance_counts hadv
      change h₁.LoopsLast r
      have hafter := hadds.status?_setStatus hst₁ st' r
      by_cases hrun : r' = r
      · subst hrun
        rw [hafter, if_pos rfl] at hst
        obtain rfl := Option.some.inj hst
        cases st with
        | requested =>
          cases hc with
          | starts _ hp =>
            rw [hp] at hloop
            cases hloop
        | ended outcome => exact absurd hst₁ (status?_ne_ended hadv outcome)
        | active b =>
          obtain hb | ⟨es', rfl⟩ := hc.loops_cases hloop
          · have hno := hc.loopBegun_not_mem hb
            exact (ih hst₁ hb).adds hadds fun e he => ⟨fun _ heq => hno (heq ▸ he), fun _ => rfl⟩
          · refine ⟨[], (es'.map (HistoryEntry.mk r' h.now)).reverse ++ h.history, h.now, ?_, nofun,
              nofun⟩
            rw [hadds.history]
            simp
      · have hother : h.status? r = some (.active a) := by rwa [hafter, if_neg hrun] at hst
        refine (ih hother hloop).adds hadds fun e he => ⟨fun heq => absurd heq hrun, fun hset => ?_⟩
        cases st with
        | requested =>
          rw [hc.setsNone he] at hset
          cases hset
        | active b => exact absurd ((Reaches.orderly hf hr).alone _ _ _ _ hst₁ hother) hrun
        | ended outcome => exact absurd hst₁ (status?_ne_ended hadv outcome)

/-- **What the gauge shows while a run is in its loop**, and so whenever it is about to poll,
whatever runs there were before and however they ended. The run counts the records that it delivered
since its last confirmed flush, and from its first batch on the gauge shows them. Before that the
run counts none, and the gauge shows what it showed when the loop began: the records that the last
run to deliver a batch or to confirm a flush then counted. -/
theorem Reaches.shows_pending (hf : h₀.Fresh) (hr : Reaches s h₀ h) {m₀ : Metrics}
    (hm : h₀.metrics = some m₀) (hst : h.status? r = some (.active a))
    (hloop : a.stage.phase.isLooping = true) :
    a.records = recordsSince (eventsOf r h.history) ∧
      ∃ m later earlier t, h.metrics = some m ∧
        h.history = later ++ ⟨r, t, .loopBegun⟩ :: earlier ∧ .loopBegun ∉ eventsOf r later ∧
        ((∃ e ∈ eventsOf r later, e.setsGauge = true) → m.recordsPending = a.records) ∧
        ((∀ e ∈ eventsOf r later, e.setsGauge = false) →
          a.records = 0 ∧ m.recordsPending = gauge m₀.recordsPending earlier) := by
  obtain ⟨m, hmetrics, rfl, -⟩ := Reaches.counters hf hr hm
  obtain ⟨later, earlier, t, hlast⟩ := Reaches.loopsLast hf hr hst hloop
  have hrecords := ((Reaches.tallied hf hr).active r a hst hloop).records
  refine ⟨hrecords, _, later, earlier, t, hmetrics, hlast.split, hlast.once, fun hset => ?_,
    fun hno => ?_⟩
  · rw [recordsPending_metered, hlast.of_set _ hset, hrecords]
  · obtain ⟨hgauge, hzero⟩ := hlast.of_not_set m₀.recordsPending hno
    exact ⟨hrecords.trans hzero, (recordsPending_metered ..).trans hgauge⟩

end Host

/-- The records that a run counts while it polls. -/
def RunStatus.polling? : RunStatus → Option Nat
  | .active { stage := .polling, records, .. } => some records
  | _ => none

namespace Host

/-- A run that counts records while it polls is active, and stands at that. -/
theorem exists_of_polling? {h : Host} {r n : Nat}
    (hpolls : (h.status? r).bind RunStatus.polling? = some n) :
    ∃ a, h.status? r = some (.active a) ∧ a.stage = .polling ∧ a.records = n := by
  obtain ⟨st, hst, hpolls⟩ := Option.bind_eq_some_iff.mp hpolls
  rw [RunStatus.polling?.eq_def] at hpolls
  split at hpolls
  · exact ⟨_, hst, rfl, Option.some.inj hpolls⟩
  · cases hpolls

/-- A run delivers a record and is stopped before its policy commits; the next run polls. -/
theorem shows_pending_after_restart :
    let s : Setup :=
      { config := { name := "engine", connectorClass := "source", flushTimeout := 5000
                    keyConverter := .json, valueConverter := .json, properties := [] }
        registry := Registry.empty.register "source" {}
        policy := .every 100
        consumer := fun _ => {} }
    let x : Record :=
      { partition := [("shard", .number (.integer 1))], offset := [("row", .number (.integer 7))]
        topic := "rows", key := none, value := .null, timestamp := none }
    let h₀ : Host := { feed := [.batch [x]] }
    let h₁ := (((h₀.request.runOn s 0 20).ask .stop).2.provide .nothing).runOn s 0 20
    let h := h₁.request.runOn s 1 20
    ∃ a m later earlier t, h.status? 1 = some (.active a) ∧ a.stage = .polling ∧
      h.metrics = some m ∧ h.history = later ++ ⟨1, t, .loopBegun⟩ :: earlier ∧
      a.records = 0 ∧ m.recordsPending = gauge 0 earlier ∧ m.recordsPending = 1 := by
  intro s x h₀ h₁ h
  have hf : h₀.Fresh := ⟨rfl, rfl, rfl, rfl⟩
  have hr₀ : Reaches s h₀ (h₀.request.runOn s 0 20) :=
    Reaches.runOn (.tail .refl .request) 0 20
  have hr₁ : Reaches s h₀ h₁ :=
    Reaches.runOn ((hr₀.tail (.ask .stop)).tail (.provide .nothing)) 0 20
  have hr : Reaches s h₀ h := Reaches.runOn (hr₁.tail .request) 1 20
  have hpolls : (h.status? 1).bind RunStatus.polling? = some 0 := by decide +kernel
  have hshown : h.metrics.map (·.recordsPending) = some 1 := by decide +kernel
  have hnone : (eventsOf 1 h.history).all (fun e => !e.setsGauge) = true := by decide +kernel
  clear_value h
  obtain ⟨a, hst, ha, -⟩ := exists_of_polling? hpolls
  obtain ⟨-, m, later, earlier, t, hm, hsplit, -, -, hbefore⟩ :=
    Reaches.shows_pending hf hr rfl hst (by rw [ha]; rfl)
  rw [hm] at hshown
  have hone : m.recordsPending = 1 := Option.some.inj hshown
  have hno : ∀ e ∈ eventsOf 1 later, e.setsGauge = false := by
    intro e he
    rw [hsplit, eventsOf_append] at hnone
    simpa using List.all_eq_true.mp hnone e (List.mem_append_left _ he)
  obtain ⟨hzero, hgauge⟩ := hbefore hno
  exact ⟨a, m, later, earlier, t, hst, ha, hm, hsplit, hzero, hgauge, hone⟩

/-- **The gauge is not that of the current run where it has delivered nothing yet.** The run before
has delivered one record and was stopped before its policy committed. -/
theorem not_shows_current :
    ¬ ∀ (s : Setup) (h₀ h : Host) (r : Nat) (a : Active) (m : Metrics), h₀.Fresh → Reaches s h₀ h →
      h₀.metrics = some {} → h.metrics = some m → h.status? r = some (.active a) →
      a.stage = .polling → m.recordsPending = recordsSince (eventsOf r h.history) := by
  intro hall
  let s : Setup :=
    { config := { name := "engine", connectorClass := "source", flushTimeout := 5000
                  keyConverter := .json, valueConverter := .json, properties := [] }
      registry := Registry.empty.register "source" {}
      policy := .every 100
      consumer := fun _ => {} }
  let x : Record :=
    { partition := [("shard", .number (.integer 1))], offset := [("row", .number (.integer 7))]
      topic := "rows", key := none, value := .null, timestamp := none }
  let h₀ : Host := { feed := [.batch [x]] }
  let h₁ := (((h₀.request.runOn s 0 20).ask .stop).2.provide .nothing).runOn s 0 20
  let h := h₁.request.runOn s 1 20
  have hr₀ : Reaches s h₀ (h₀.request.runOn s 0 20) :=
    Reaches.runOn (.tail .refl .request) 0 20
  have hr₁ : Reaches s h₀ h₁ :=
    Reaches.runOn ((hr₀.tail (.ask .stop)).tail (.provide .nothing)) 0 20
  have hr : Reaches s h₀ h := Reaches.runOn (hr₁.tail .request) 1 20
  have hpolls : (h.status? 1).bind RunStatus.polling? = some 0 := by decide +kernel
  have hshown : h.metrics.map (·.recordsPending) = some 1 := by decide +kernel
  have hcount : recordsSince (eventsOf 1 h.history) = 0 := by decide +kernel
  clear_value h
  obtain ⟨a, hst, ha, -⟩ := exists_of_polling? hpolls
  obtain ⟨m, hm, hone⟩ := Option.map_eq_some_iff.mp hshown
  have hsame := hall s h₀ h 1 a m ⟨rfl, rfl, rfl, rfl⟩ hr rfl hm hst ha
  rw [hone, hcount] at hsame
  cases hsame

end Host

end ChangeCapture
