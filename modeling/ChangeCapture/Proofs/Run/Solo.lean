import ChangeCapture.Proofs.Run.Ready
import Mathlib.Logic.Function.Iterate

/-!
# Runs that differ in their commits

A host is asked for one run and for nothing else, and its polls give what a script says. When its
turns fall, which policy is consulted, how long a flush may take and what becomes of the writes are
left open. Every turn leaves what is left of the host without its commits as it is, or takes it one
step further; and as long as there is such a step, the run comes to take it.

So all such executions go the same way, each at its own pace: they deliver the same records, call
the same hooks in the same order, and end alike.

## Main definitions

* `Host.Turn`, `Host.Continues`: the turns of a host that runs once.
* `Host.Stands`: how such a host stands.
* `Host.Alike`: two hosts that differ in their commits only.

## Main results

* `Host.Stands.turn` — a turn leaves the bare host as it is, or is its next step.
* `Host.Stands.exists_bareStep` — a run can go on as long as its bare host does.
* `Host.Alike.undisturbed` — commits disturb nothing.
-/

namespace ChangeCapture

/-- A trail tells all that polls gave. -/
theorem filterMap_polled?_trail (es : List Event) :
    (trail es).filterMap Event.polled? = es.filterMap Event.polled? := by
  have hpolled : (fun e => (Event.bare? e).bind Event.polled?) = Event.polled? := by
    funext e
    cases e with
    | notice n =>
      rw [Event.bare?]
      split <;> rfl
    | _ => rfl
  rw [trail, List.filterMap_filterMap]
  exact congrArg (fun f => es.filterMap f) hpolled

/-- A write leaves the plan of its store alone, and the calls but for those of its kind. -/
theorem Write.exists_turn_store (n now : Nat) (store : PlannedStore) (w : Write) :
    ∃ content setCalls, (w.turn n now store).store = { store with store := content, setCalls } := by
  have comesBack : ∀ error (store : PlannedStore), ∃ content,
      (w.comeBack n error store).store = { store with store := content } := by
    intro error store
    cases error with
    | some e => exact ⟨_, rfl⟩
    | none => exact ⟨_, rfl⟩
  have waits : ∀ call (store : PlannedStore), ∃ content,
      (w.waitFor n now call store).store = { store with store := content } := by
    intro call store
    rw [waitFor]
    split
    · exact comesBack _ _
    · exact ⟨_, rfl⟩
  rw [turn]
  split
  · rw [reach]
    dsimp only [PlannedStore.callSet]
    split
    · obtain ⟨content, hstore⟩ := waits _ _
      exact ⟨content, _, hstore⟩
    · exact ⟨_, _, rfl⟩
    · exact ⟨_, _, rfl⟩
    · exact ⟨_, _, rfl⟩
  · obtain ⟨content, hstore⟩ := waits _ _
    exact ⟨content, _, hstore⟩
  · exact ⟨_, _, rfl⟩
  · exact ⟨_, _, rfl⟩

namespace Host

variable {s : Setup} {script : Nat → Polled} {h h' h₀ : Host} {a : Active} {st st' : RunStatus}
  {n : Nat} {x y : Nat × Host}

/-- **A turn of a write disturbs nothing** that is left without commits. -/
theorem turnWrite_agrees (n : Nat) (h : Host) :
    (h.turnWrite n).Agrees h ∧ h.Keeps (h.turnWrite n) := by
  obtain heq | ⟨write, status, es, hw⟩ := turnWrite_cases n h
  · rw [heq]
    exact ⟨.refl h, rfl, rfl⟩
  · have hstore : ∃ content setCalls writes history, h.turnWrite n =
        { h with store := { h.store with store := content, setCalls }, writes, history } := by
      obtain ⟨content, setCalls, heq⟩ := write.exists_turn_store n h.now h.store
      rw [turnWrite, hw.found]
      dsimp only
      rw [emitAll_eq, heq]
      exact ⟨_, _, _, _, rfl⟩
    have hquiet : ∀ e ∈ es, e.bare? = none ∧ e.polled? = none := by
      intro e he
      obtain rfl | ⟨_, rfl⟩ | rfl := hw.events e he <;> exact ⟨rfl, rfl⟩
    have htrail : trail (eventsOf 0 (h.turnWrite n).history) = trail (eventsOf 0 h.history) ∧
        (eventsOf 0 (h.turnWrite n).history).filterMap Event.polled? =
          (eventsOf 0 h.history).filterMap Event.polled? := by
      by_cases hrun : write.run = 0
      · have hadds := hw.adds.eventsOf_self
        rw [hrun] at hadds
        have hbare : trail es.reverse = [] := List.filterMap_eq_nil_iff.mpr fun e he =>
          (hquiet e (List.mem_reverse.mp he)).1
        have hpolled : es.reverse.filterMap Event.polled? = [] :=
          List.filterMap_eq_nil_iff.mpr fun e he => (hquiet e (List.mem_reverse.mp he)).2
        rw [hadds, trail_append, List.filterMap_append, hbare, hpolled]
        exact ⟨rfl, rfl⟩
      · rw [hw.adds.eventsOf_of_ne hrun]
        exact ⟨rfl, rfl⟩
    obtain ⟨content, setCalls, writes, history, heq⟩ := hstore
    have hfeed : (h.turnWrite n).feed = h.feed := by rw [heq]
    refine ⟨⟨?_, ?_, ?_, ?_, ?_, ?_, ?_, ?_, ?_, htrail.1⟩, hw.adds.runs, ?_⟩
    · exact hw.lifecycle
    all_goals first
      | rw [results, results, htrail.2, hfeed]
      | rw [heq]

/-- How what a run does next counts. -/
theorem progress_counted (s : Setup) (st : RunStatus) (h : Host) :
    h.Counted s 0 st (h.progress s st) := by
  cases st with
  | requested => exact begin_counted s 0 h
  | active a => exact step_counted s 0 a h
  | ended outcome => trivial

/-! ### Turns -/

/-- **What may happen to a host that runs once and is asked for nothing else**: its polls give what
the script says, its run, its writes and its waiters take turns, and time goes by. The host stands
beside the number of results that it was given. -/
inductive Turn (s : Setup) (script : Nat → Polled) : Nat × Host → Nat × Host → Prop where
  | provide (n : Nat) (h : Host) : Turn s script (n, h) (n + 1, h.provide (script n))
  | startWaiter (n : Nat) (h : Host) (name : Int) (wish : Wish) :
      Turn s script (n, h) (n, h.startWaiter name wish)
  | look (n : Nat) (h : Host) (number : Nat) : Turn s script (n, h) (n, h.turnWaiter number)
  | write (n : Nat) (h : Host) (number : Nat) : Turn s script (n, h) (n, h.turnWrite number)
  | run (n : Nat) {h h' : Host} (hadv : h.advance s 0 = some h') : Turn s script (n, h) (n, h')
  | pass (n : Nat) (h : Host) {now : Nat} (hnow : h.now ≤ now) :
      Turn s script (n, h) (n, { h with now })

/-- Any turns, one after the other. -/
def Continues (s : Setup) (script : Nat → Polled) : Nat × Host → Nat × Host → Prop :=
  Relation.ReflTransGen (Turn s script)

/-- A run that goes on takes turns. -/
theorem Continues.runOn (hx : Continues s script x (n, h)) (fuel : Nat) :
    Continues s script x (n, h.runOn s 0 fuel) :=
  Host.runOn_of_steps (P := fun h => Continues s script x (n, h))
    (fun hadv hx => hx.tail (.run n hadv)) hx fuel

/-- **How a host stands that runs once**: it has one run, polls gave and will give what the script
says, and nothing is written before the loop. -/
structure Stands (script : Nat → Polled) (x : Nat × Host) (st : RunStatus) : Prop where
  runs : x.2.runs = [{ status := st }]
  results : x.2.results = (List.range x.1).map script
  unwritten : st.isStarting = true → x.2.writes = []

namespace Stands

/-- How far the run is. -/
theorem status? (hx : Stands script x st) : x.2.status? 0 = some st := by
  rw [Host.status?, hx.runs]
  rfl

/-- A step of the run is what the run does next. -/
theorem advance_eq (hx : Stands script x st) : x.2.advance s 0 = absorb 0 (x.2.progress s st) := by
  rw [advance, hx.runs]
  cases st <;> rfl

/-- What the next poll gives is what the script says. -/
theorem head_eq (hx : Stands script x st) {result : Polled} {feed : List Polled}
    (hfeed : x.2.feed = result :: feed) :
    result = script (polls (trail (eventsOf 0 x.2.history))) := by
  have hresults := hx.results
  rw [Host.results, hfeed] at hresults
  rw [polls, filterMap_polled?_trail]
  generalize (eventsOf 0 x.2.history).filterMap Event.polled? = gave at hresults ⊢
  have hhead : (gave.reverse ++ result :: feed)[gave.length]? = some result := by simp
  rw [hresults, List.getElem?_map, Option.map_eq_some_iff] at hhead
  obtain ⟨k, hk, rfl⟩ := hhead
  obtain ⟨hlt, rfl⟩ := List.getElem?_eq_some_iff.mp hk
  rw [List.getElem_range]

/-- **A step is what the run does next**, and leaves alone what a step leaves alone. -/
theorem of_advance (hx : Stands script x st) (hadv : x.2.advance s 0 = some h') :
    ∃ st', Stands script (x.1, h') st' ∧ (∃ es, Counts s x.2 st es st') ∧
      (x.2.progress s st).toBare? s script = some (h'.toBare s script st') := by
  have hgoes := progress_goes s st x.2
  have hcounted := progress_counted s st x.2
  have stands : ∀ {st' h₁}, x.2.Proceeds st st' h₁ →
      Stands script (x.1, h₁.setStatus 0 st') st' := by
    intro st' h₁ hp
    refine ⟨?_, hp.results.trans hx.results, fun hst' => ?_⟩
    · rw [setStatus, hp.runs, hx.runs]
      rfl
    · obtain ⟨hst, hw⟩ := hp.starting hst'
      exact hw.trans (hx.unwritten hst)
  rw [hx.advance_eq] at hadv
  cases hprogress : x.2.progress s st with
  | blocked =>
    rw [hprogress] at hadv
    cases hadv
  | goesOn a h₁ =>
    rw [hprogress] at hadv hgoes hcounted
    obtain rfl := Option.some.inj hadv
    obtain ⟨es, -, hc⟩ := hcounted
    exact ⟨_, stands hgoes, ⟨es, hc⟩, rfl⟩
  | ends outcome h₁ =>
    rw [hprogress] at hadv hgoes hcounted
    obtain rfl := Option.some.inj hadv
    obtain ⟨es, -, hc⟩ := hcounted
    exact ⟨_, stands hgoes, ⟨es, hc⟩, rfl⟩

/-- A run of which something is left after its step did not wait. -/
theorem step_ne_blocked {b : Bare}
    (hb : (h.progress s (.active a)).toBare? s script = some b) : h.step s 0 a ≠ .blocked := by
  intro hblocked
  rw [progress, hblocked] at hb
  cases hb

/-- A run that takes a step was ready for it. -/
theorem ready (hx : Stands script x (.active a)) (hstep : x.2.step s 0 a ≠ .blocked) :
    x.2.Ready script a.stage where
  back call hstage := by
    refine Bool.of_not_eq_false fun hback => hstep ?_
    rcases hstage with ha | ⟨request, ha⟩
    · rw [step, ha]
      exact if_pos (by rw [hback]; rfl)
    · rw [step, ha]
      exact if_pos (by rw [hback]; rfl)
  fed ha hinterrupted := by
    cases hfeed : x.2.feed with
    | nil =>
      refine absurd ?_ hstep
      rw [step, ha]
      simp only [polling, hinterrupted, hfeed]
      rfl
    | cons result feed => exact ⟨feed, by rw [hx.head_eq hfeed]⟩

/-- Polls are given one more result of the script. -/
theorem provide (hx : Stands script x st) :
    Stands script (x.1 + 1, x.2.provide (script x.1)) st := by
  refine ⟨hx.runs, ?_, hx.unwritten⟩
  rw [List.range_succ, List.map_append, ← hx.results, Host.results, Host.results, List.append_assoc]
  rfl

/-- **A turn disturbs nothing, or is a step of the bare host.** -/
theorem turn (htime : 0 < s.config.flushTimeout) (hx : Stands script x st)
    (ht : Turn s script x y) :
    ∃ st', Stands script y st' ∧
      (y.2.toBare s script st' = x.2.toBare s script st ∨
        y.2.toBare s script st' = bareStep s script (x.2.toBare s script st)) := by
  cases ht with
  | provide n h => exact ⟨st, hx.provide, .inl rfl⟩
  | startWaiter => exact ⟨st, ⟨hx.runs, hx.results, hx.unwritten⟩, .inl rfl⟩
  | look => exact ⟨st, ⟨hx.runs, hx.results, hx.unwritten⟩, .inl rfl⟩
  | pass => exact ⟨st, ⟨hx.runs, hx.results, hx.unwritten⟩, .inl rfl⟩
  | write n h number =>
    obtain ⟨hagrees, hkeeps⟩ := turnWrite_agrees number h
    -- Before the loop there is nothing to be written.
    have hnone : st.isStarting = true → h.turnWrite number = h := by
      intro hst
      rw [turnWrite, hx.unwritten hst]
      rfl
    have hresults := hkeeps.results.trans hx.results
    refine ⟨st, ⟨hkeeps.runs.trans hx.runs, hresults, fun hst => ?_⟩, .inl ?_⟩
    · rw [hnone hst]
      exact hx.unwritten hst
    · have hhost : (h.turnWrite number).bare script st = h.bare script st :=
        hagrees.bare_eq rfl fun hst => by rw [hnone hst]
      rw [toBare, toBare, hhost]
  | @run n h h' hadv =>
    obtain ⟨st', hy, -, hprogress⟩ := hx.of_advance hadv
    refine ⟨st', hy, ?_⟩
    by_cases hcommit : ∃ a, st = .active a ∧ a.stage.isCommitting = true
    · obtain ⟨a, rfl, hcommit⟩ := hcommit
      rcases step_bare_of_isCommitting hcommit with hnone | hsame
      · cases hnone.symm.trans hprogress
      · exact .inl (Option.some.inj (hprogress.symm.trans hsame))
    · refine .inr (bareStep_toBare htime ?_ hprogress).symm
      rintro a rfl
      exact ⟨Bool.eq_false_iff.mpr fun hyes => hcommit ⟨a, rfl, hyes⟩,
        hx.ready (step_ne_blocked hprogress)⟩

/-- A run that is ready takes its turn. -/
theorem exists_run (s : Setup) (hx : Stands script x st)
    (hready : x.2.isRunReady { status := st } = true) :
    ∃ h' st', Turn s script x (x.1, h') ∧ Stands script (x.1, h') st' ∧
      (∃ es, Counts s x.2 st es st') ∧
      (x.2.progress s st).toBare? s script = some (h'.toBare s script st') := by
  have hgoes := progress_goes s st x.2
  cases hadv : x.2.advance s 0 with
  | some h' =>
    obtain ⟨st', hy, hc, hprogress⟩ := hx.of_advance hadv
    exact ⟨h', st', .run x.1 hadv, hy, hc, hprogress⟩
  | none =>
    rw [hx.advance_eq] at hadv
    cases hprogress : x.2.progress s st with
    | blocked =>
      rw [hprogress] at hgoes
      exact absurd (hgoes.symm.trans hready) Bool.false_ne_true
    | goesOn => rw [hprogress] at hadv; cases hadv
    | ends => rw [hprogress] at hadv; cases hadv

/-- Time goes by. -/
theorem pass (hx : Stands script x st) (now : Nat) : Stands script (x.1, { x.2 with now }) st :=
  ⟨hx.runs, hx.results, hx.unwritten⟩

/-! ### Going on -/

/-- A run does not commit any more after a commit. -/
theorem isCommitting_afterCommit (a : Active) (final : Bool) :
    (afterCommit a final).stage.isCommitting = false := by
  cases final <;> rfl

/-- A run that commits and takes its turn stands where it stood without commits. -/
theorem exists_commit (s : Setup) (hx : Stands script x (.active a))
    (hcommit : a.stage.isCommitting = true) (hready : x.2.isStageReady a.stage = true) :
    ∃ h' a', Turn s script x (x.1, h') ∧ Stands script (x.1, h') (.active a') ∧
      (∃ es, Counts s x.2 (.active a) es (.active a')) ∧
      h'.toBare s script (.active a') = x.2.toBare s script (.active a) := by
  obtain ⟨h', st', ht, hy, hc, hprogress⟩ := hx.exists_run s hready
  rcases step_bare_of_isCommitting hcommit with hnone | hsame
  · cases hnone.symm.trans hprogress
  · have hbare := Option.some.inj (hprogress.symm.trans hsame)
    cases st' with
    | active a' => exact ⟨h', a', ht, hy, hc, hbare⟩
    | _ => cases congrArg Bare.status hbare

/-- A flush does not last longer than until its deadline. -/
theorem settles_of_flushing (s : Setup) {number deadline : Nat} {final : Bool}
    (hx : Stands script x (.active a)) (ha : a.stage = .flushing number deadline final) :
    ∃ y a', Continues s script x y ∧ Stands script y (.active a') ∧
      a'.stage.isCommitting = false ∧
      y.2.toBare s script (.active a') = x.2.toBare s script (.active a) := by
  let h : Host := { x.2 with now := max x.2.now deadline }
  have hpass : Turn s script x (x.1, h) := .pass x.1 x.2 (Nat.le_max_left _ _)
  have hready : h.isStageReady a.stage = true := by
    have hdeadline : deadline ≤ h.now := Nat.le_max_right _ _
    simp [isStageReady, ha, hdeadline]
  obtain ⟨h', a', ht, hy, ⟨es, hc⟩, hbare⟩ :=
    (hx.pass (max x.2.now deadline)).exists_commit s (by rw [ha]; rfl) hready
  refine ⟨_, a', .tail (.tail .refl hpass) ht, hy, ?_, hbare⟩
  cases hc with
  | keeps _ _ ha' => exact ha'
  | commits _ _ ha' | givesUp _ ha' => rw [ha', isCommitting_afterCommit]
  | begins _ hup | delivers hup | skips hup | submits hup =>
    rw [ha] at hup
    cases final <;> cases hup
  | heeds _ hup => rw [ha] at hup; simp at hup

/-- **A commit comes to an end**, and then the run stands where it stood without commits. -/
theorem settles (s : Setup) (hx : Stands script x (.active a)) :
    ∃ y a', Continues s script x y ∧ Stands script y (.active a') ∧
      a'.stage.isCommitting = false ∧
      y.2.toBare s script (.active a') = x.2.toBare s script (.active a) := by
  cases hcommit : a.stage.isCommitting with
  | false => exact ⟨x, a, .refl, hx, hcommit, rfl⟩
  | true =>
    cases ha : a.stage with
    | flushing number deadline final => exact hx.settles_of_flushing s ha
    | consulting final =>
      obtain ⟨h', a', ht, hy, ⟨es, hc⟩, hbare⟩ :=
        hx.exists_commit s hcommit (by rw [ha]; rfl)
      cases hc with
      | submits _ _ _ _ ha' =>
        obtain ⟨z, b, hz, hstands, hno, hsame⟩ := hy.settles_of_flushing s ha'
        exact ⟨z, b, .head ht hz, hstands, hno, hsame.trans hbare⟩
      | keeps _ hno => cases hcommit.symm.trans hno
      | commits _ _ ha' | givesUp _ ha' | skips _ _ _ ha' =>
        exact ⟨_, a', .single ht, hy, by rw [ha', isCommitting_afterCommit], hbare⟩
      | begins _ hup | delivers hup =>
        rw [ha] at hup
        cases final <;> cases hup
      | heeds _ hup => rw [ha] at hup; simp at hup
    | _ =>
      rw [ha] at hcommit
      cases hcommit

/-- A run whose bare host waits need not go on. -/
theorem bareStep_of_not_ready
    (hready : (h.bare script (.active a)).isStageReady a.stage.bare = false)
    (hno : a.stage.isCommitting = false) :
    bareStep s script (h.toBare s script (.active a)) = h.toBare s script (.active a) := by
  have hblocked : (h.bare script (.active a)).step s.bare 0 (a.bare s) = .blocked := by
    have hstage : (a.bare s).stage = a.stage.bare := rfl
    rw [step, hstage]
    cases ha : a.stage with
    | startingStore call | resuming call _ =>
      rw [ha] at hready
      exact if_pos (by rw [Bool.not_eq_true']; exact hready)
    | consulting | flushing =>
      rw [ha] at hno
      cases hno
    | _ =>
      rw [ha] at hready
      simp [isStageReady, Stage.bare, bare] at hready
  have hstep : (h.bare script (.active a)).progress s.bare (.active (a.bare s)) = .blocked :=
    hblocked
  rw [bareStep, toBare, RunStatus.bare, hstep]
  rfl

/-- A call that its bare host has back comes back. -/
theorem exists_until {call : PendingCall} (hback : call.bare.isBack 0 = true) :
    ∃ instant, call.until? = some instant := by
  cases hu : call.until? with
  | some instant => exact ⟨instant, rfl⟩
  | none => simp [PendingCall.isBack, PendingCall.bare, hu] at hback

/-- A run whose bare host is ready becomes ready: its call comes back, or its poll gives the next
result of the script. -/
theorem exists_ready (s : Setup) (hx : Stands script x (.active a))
    (hno : a.stage.isCommitting = false)
    (hready : (x.2.bare script (.active a)).isStageReady a.stage.bare = true) :
    ∃ y, Continues s script x y ∧ Stands script y (.active a) ∧
      y.2.isStageReady a.stage = true ∧
      y.2.toBare s script (.active a) = x.2.toBare s script (.active a) := by
  cases ha : a.stage with
  | startingStore call | resuming call _ =>
    rw [ha] at hready
    obtain ⟨instant, hu⟩ := exists_until hready
    have hpass : Turn s script x (x.1, { x.2 with now := max x.2.now instant }) :=
      .pass x.1 x.2 (Nat.le_max_left _ _)
    have hback : instant ≤ max x.2.now instant := Nat.le_max_right _ _
    exact ⟨_, .single hpass, hx.pass _, by simp [isStageReady, PendingCall.isBack, hu, hback], rfl⟩
  | polling =>
    have hprovide : Turn s script x (x.1 + 1, x.2.provide (script x.1)) := .provide x.1 x.2
    exact ⟨_, .single hprovide, hx.provide, by simp [isStageReady, Host.provide], rfl⟩
  | consulting | flushing =>
    rw [ha] at hno
    cases hno
  | _ => exact ⟨x, .refl, hx, rfl, rfl⟩

/-- **A run can go on as long as its bare host does.** -/
theorem exists_bareStep (htime : 0 < s.config.flushTimeout) (hx : Stands script x st) :
    ∃ y st', Continues s script x y ∧ Stands script y st' ∧
      y.2.toBare s script st' = bareStep s script (x.2.toBare s script st) := by
  cases st with
  | ended outcome => exact ⟨x, _, .refl, hx, rfl⟩
  | requested =>
    obtain ⟨h', st', ht, hy, -, hprogress⟩ := hx.exists_run s rfl
    have hnone : ∀ a, RunStatus.requested = .active a →
        a.stage.isCommitting = false ∧ x.2.Ready script a.stage := by
      rintro a ⟨⟩
    exact ⟨_, st', .single ht, hy, (bareStep_toBare htime hnone hprogress).symm⟩
  | active a =>
    obtain ⟨y, a', hxy, hy, hno, hsame⟩ := hx.settles s
    rw [← hsame]
    cases hready : (y.2.bare script (.active a')).isStageReady a'.stage.bare with
    | false => exact ⟨y, _, hxy, hy, (bareStep_of_not_ready hready hno).symm⟩
    | true =>
      obtain ⟨z, hyz, hz, hzready, hzsame⟩ := hy.exists_ready s hno hready
      obtain ⟨h', st', ht, hh', -, hprogress⟩ := hz.exists_run s hzready
      refine ⟨_, st', (hxy.trans hyz).tail ht, hh', ?_⟩
      rw [← hzsame]
      refine (bareStep_toBare htime ?_ hprogress).symm
      rintro _ ⟨⟩
      exact ⟨hno, hz.ready (step_ne_blocked hprogress)⟩

end Stands

/-! ### Trails of bare hosts -/

/-- A step of a bare host adds to its trail. -/
theorem trail_bareStep (b : Bare) :
    trail (eventsOf 0 b.host.history) <:+
      trail (eventsOf 0 (bareStep s script b).host.history) := by
  have hcounted := progress_counted s.bare b.status b.host
  have adds : ∀ {st' h'}, (∃ es, b.host.Adds 0 es h' ∧ Counts s.bare b.host b.status es st') →
      trail (eventsOf 0 b.host.history) <:+
        trail (eventsOf 0 (h'.toBare s script st').host.history) := by
    rintro st' h' ⟨es, hadds, -⟩
    have htrail : trail (eventsOf 0 (h'.toBare s script st').host.history) =
        trail (eventsOf 0 h'.history) := (agrees_bare script st' h').history
    rw [htrail, hadds.eventsOf_self, trail_append]
    exact List.suffix_append _ _
  rw [bareStep]
  cases hprogress : b.host.progress s.bare b.status with
  | blocked => exact List.suffix_refl _
  | goesOn a h' =>
    rw [hprogress] at hcounted
    exact adds hcounted
  | ends outcome h' =>
    rw [hprogress] at hcounted
    exact adds hcounted

/-- Any steps of a bare host add to its trail. -/
theorem trail_iterate (m : Nat) (b : Bare) :
    trail (eventsOf 0 b.host.history) <:+
      trail (eventsOf 0 ((bareStep s script)^[m] b).host.history) := by
  induction m with
  | zero => exact List.suffix_refl _
  | succ m ih =>
    rw [Function.iterate_succ_apply']
    exact ih.trans (trail_bareStep _)

/-- A bare host that has ended takes no steps. -/
theorem iterate_of_ended {b : Bare} {outcome : RunEnd} (hb : b.status = .ended outcome) (m : Nat) :
    (bareStep s script)^[m] b = b := by
  refine Function.iterate_fixed ?_ m
  rw [bareStep, hb]
  rfl

/-! ### Whole executions -/

/-- A host that is asked for its only run. -/
theorem Stands.start (hf : h₀.Fresh) (hfeed : h₀.feed = []) :
    Stands script (0, h₀.request) .requested where
  runs := by
    rw [request, hf.runs]
    rfl
  results := by
    rw [Host.results, request, hf.history, hfeed]
    rfl
  unwritten _ := hf.writes

/-- **Any turns take the bare host some steps further.** -/
theorem Stands.continues (htime : 0 < s.config.flushTimeout) (hx : Stands script x st)
    (hxy : Continues s script x y) :
    ∃ st' m, Stands script y st' ∧
      y.2.toBare s script st' = (bareStep s script)^[m] (x.2.toBare s script st) := by
  induction hxy with
  | refl => exact ⟨st, 0, hx, rfl⟩
  | tail _ ht ih =>
    obtain ⟨st₁, m, hy, hbare⟩ := ih
    obtain ⟨st', hz, hsame | hstep⟩ := hy.turn htime ht
    · exact ⟨st', m, hz, hsame.trans hbare⟩
    · exact ⟨st', m + 1, hz, by rw [hstep, hbare, Function.iterate_succ_apply']⟩

/-- **Some turns take the bare host as many steps further as there are.** -/
theorem Stands.exists_continues (htime : 0 < s.config.flushTimeout) (hx : Stands script x st)
    (m : Nat) :
    ∃ y st', Continues s script x y ∧ Stands script y st' ∧
      y.2.toBare s script st' = (bareStep s script)^[m] (x.2.toBare s script st) := by
  induction m with
  | zero => exact ⟨x, st, .refl, hx, rfl⟩
  | succ m ih =>
    obtain ⟨y, st₁, hxy, hy, hbare⟩ := ih
    obtain ⟨z, st', hyz, hz, hstep⟩ := hy.exists_bareStep htime
    exact ⟨z, st', hxy.trans hyz, hz, by rw [hstep, hbare, Function.iterate_succ_apply']⟩

end Host

/-- What is left depends on what is left of the setup. -/
theorem bareStep_congr {s₁ s₂ : Setup} (hs : s₁.bare = s₂.bare) (script : Nat → Polled) :
    bareStep s₁ script = bareStep s₂ script := by
  have hbare : ∀ (s : Setup) (p : Progress), p.toBare? s script = p.toBare? s.bare script := by
    intro s p
    cases p <;> rfl
  funext b
  rw [bareStep, bareStep, hbare s₁, hbare s₂, hs]

namespace Host

/-- The trail of the only run of a host. -/
def trailOf (h : Host) : List Event :=
  trail (eventsOf 0 h.history)

/-- **Two hosts that differ in their commits only**, before anything was asked of them: their setups
may differ in the policy and in the commit timeout, and the hosts in how the writes to their stores
go. -/
structure Alike (s₁ s₂ : Setup) (h₁ h₂ : Host) : Prop where
  setups : s₁.bare = s₂.bare
  timeouts : 0 < s₁.config.flushTimeout ∧ 0 < s₂.config.flushTimeout
  fresh : h₁.Fresh ∧ h₂.Fresh
  unfed : h₁.feed = [] ∧ h₂.feed = []
  agrees : h₁.Agrees h₂
  content : h₁.store.store = h₂.store.store

variable {s₁ s₂ : Setup} {h h₁ h₂ : Host} {script : Nat → Polled} {x y : Nat × Host}

/-- It does not matter which host comes first. -/
theorem Alike.symm (ha : Alike s₁ s₂ h₁ h₂) : Alike s₂ s₁ h₂ h₁ where
  setups := ha.setups.symm
  timeouts := ha.timeouts.symm
  fresh := ha.fresh.symm
  unfed := ha.unfed.symm
  agrees := ha.agrees.symm
  content := ha.content.symm

/-- What is left of a host tells its trail. -/
theorem trail_toBare (s : Setup) (script : Nat → Polled) (st : RunStatus) (h : Host) :
    trail (eventsOf 0 (h.toBare s script st).host.history) = h.trailOf :=
  (agrees_bare script st h).history

/-- Hosts of which the same is left have the same trail, and their runs end alike. -/
theorem same_of_toBare_eq {h h' : Host} {st st' : RunStatus}
    (hsame : h.toBare s₁ script st = h'.toBare s₂ script st') :
    h.trailOf = h'.trailOf ∧ ∀ outcome, st' = .ended outcome → st = .ended outcome := by
  refine ⟨?_, ?_⟩
  · rw [← trail_toBare s₁ script st, ← trail_toBare s₂ script st', hsame]
  · rintro outcome rfl
    have hstatus : st.bare s₁ = .ended outcome := congrArg Bare.status hsame
    cases st with
    | ended o =>
      obtain rfl := RunStatus.ended.inj hstatus
      rfl
    | _ => cases hstatus

/-- What is further has the longer trail. -/
theorem suffix_of_iterate {s : Setup} {h h' : Host} {st st' : RunStatus} {k : Nat}
    (hk : h'.toBare s₂ script st' = (bareStep s script)^[k] (h.toBare s₁ script st)) :
    h.trailOf <:+ h'.trailOf := by
  rw [← trail_toBare s₁ script st, ← trail_toBare s₂ script st', hk]
  exact trail_iterate k _

/-- Where one run has ended, one that is further has ended alike. -/
theorem ended_of_iterate {s : Setup} {h h' : Host} {st' : RunStatus} {outcome : RunEnd} {k : Nat}
    (hk : h'.toBare s₂ script st' =
      (bareStep s script)^[k] (h.toBare s₁ script (.ended outcome))) :
    st' = .ended outcome ∧ h'.trailOf = h.trailOf := by
  have hended : (h.toBare s₁ script (.ended outcome)).status = .ended outcome := rfl
  rw [iterate_of_ended hended] at hk
  obtain ⟨htrail, hend⟩ := same_of_toBare_eq hk
  exact ⟨hend outcome rfl, htrail⟩

/-- **Of two executions one is ahead**: what is left of it comes after what is left of the other. -/
theorem Alike.ahead (ha : Alike s₁ s₂ h₁ h₂) (hx : Continues s₁ script (0, h₁.request) x)
    (hy : Continues s₂ script (0, h₂.request) y) :
    ∃ st st', Stands script x st ∧ Stands script y st' ∧
      ((∃ k, y.2.toBare s₂ script st' = (bareStep s₁ script)^[k] (x.2.toBare s₁ script st)) ∨
        ∃ k, x.2.toBare s₁ script st = (bareStep s₁ script)^[k] (y.2.toBare s₂ script st')) := by
  obtain ⟨st, m, hst, hbare⟩ :=
    (Stands.start ha.fresh.1 ha.unfed.1).continues ha.timeouts.1 hx
  obtain ⟨st', n, hst', hbare'⟩ :=
    (Stands.start ha.fresh.2 ha.unfed.2).continues ha.timeouts.2 hy
  have hrequest : h₁.request.Agrees h₂.request := { ha.agrees with }
  have hhost : h₁.request.bare script .requested = h₂.request.bare script .requested :=
    hrequest.bare_eq rfl fun _ => ha.content
  have hstart : h₂.request.toBare s₂ script .requested =
      h₁.request.toBare s₁ script .requested := by
    rw [toBare, toBare, hhost]
    rfl
  rw [hstart, ← bareStep_congr ha.setups] at hbare'
  refine ⟨st, st', hst, hst', ?_⟩
  rcases Nat.le_total m n with hle | hle
  · refine .inl ⟨n - m, ?_⟩
    rw [hbare, hbare', ← Function.iterate_add_apply, Nat.sub_add_cancel hle]
  · refine .inr ⟨m - n, ?_⟩
    rw [hbare, hbare', ← Function.iterate_add_apply, Nat.sub_add_cancel hle]

/-- **No execution is kept from catching up** with another. -/
theorem Alike.exists_catchUp (ha : Alike s₁ s₂ h₁ h₂)
    (hx : Continues s₁ script (0, h₁.request) x) (hy : Continues s₂ script (0, h₂.request) y) :
    ∃ z, Continues s₁ script x z ∧ y.2.trailOf <:+ z.2.trailOf ∧
      ∀ outcome, y.2.status? 0 = some (.ended outcome) →
        z.2.status? 0 = some (.ended outcome) ∧ z.2.trailOf = y.2.trailOf := by
  obtain ⟨st, st', hst, hst', hahead⟩ := ha.ahead hx hy
  rw [hst'.status?]
  simp only [Option.some.injEq]
  rcases hahead with ⟨k, hk⟩ | ⟨k, hk⟩
  · obtain ⟨z, st₁, hxz, hz, hbare⟩ := hst.exists_continues ha.timeouts.1 k
    obtain ⟨hsame, hend⟩ := same_of_toBare_eq (hbare.trans hk.symm)
    refine ⟨z, hxz, hsame ▸ List.suffix_refl _, fun outcome ho => ?_⟩
    exact ⟨by rw [hz.status?, hend outcome ho], hsame⟩
  · refine ⟨x, .refl, suffix_of_iterate hk, ?_⟩
    rintro outcome rfl
    obtain ⟨hended, hsame⟩ := ended_of_iterate hk
    exact ⟨by rw [hst.status?, hended], hsame⟩

/-- **Commits disturb nothing.** Two executions of a run with the same connector, the same consumer,
the same polls and the same content of the store at first may consult other policies, wait longer or
shorter for their flushes, and see each write succeed, fail, panic, take its time or hang. Of their
trails, that is of all that happens but for commits, the one always begins with the other. If both
have ended, they have the same trail and the same outcome, and neither is ever kept from catching up
with the other. -/
theorem Alike.undisturbed (ha : Alike s₁ s₂ h₁ h₂)
    (hx : Continues s₁ script (0, h₁.request) x) (hy : Continues s₂ script (0, h₂.request) y) :
    (x.2.trailOf <:+ y.2.trailOf ∨ y.2.trailOf <:+ x.2.trailOf) ∧
    (∀ outcome outcome', x.2.status? 0 = some (.ended outcome) →
      y.2.status? 0 = some (.ended outcome') →
        x.2.trailOf = y.2.trailOf ∧ outcome = outcome') ∧
    (∃ z, Continues s₁ script x z ∧ y.2.trailOf <:+ z.2.trailOf ∧
      ∀ outcome, y.2.status? 0 = some (.ended outcome) →
        z.2.status? 0 = some (.ended outcome) ∧ z.2.trailOf = y.2.trailOf) ∧
    ∃ z, Continues s₂ script y z ∧ x.2.trailOf <:+ z.2.trailOf ∧
      ∀ outcome, x.2.status? 0 = some (.ended outcome) →
        z.2.status? 0 = some (.ended outcome) ∧ z.2.trailOf = x.2.trailOf := by
  refine ⟨?_, ?_, ha.exists_catchUp hx hy, ha.symm.exists_catchUp hy hx⟩
  · obtain ⟨st, st', -, -, ⟨k, hk⟩ | ⟨k, hk⟩⟩ := ha.ahead hx hy
    · exact .inl (suffix_of_iterate hk)
    · exact .inr (suffix_of_iterate hk)
  · intro outcome outcome' ho ho'
    obtain ⟨st, st', hst, hst', hahead⟩ := ha.ahead hx hy
    obtain rfl := Option.some.inj (hst.status?.symm.trans ho)
    obtain rfl := Option.some.inj (hst'.status?.symm.trans ho')
    rcases hahead with ⟨k, hk⟩ | ⟨k, hk⟩
    · obtain ⟨hended, hsame⟩ := ended_of_iterate hk
      exact ⟨hsame.symm, (RunStatus.ended.inj hended).symm⟩
    · obtain ⟨hended, hsame⟩ := ended_of_iterate hk
      exact ⟨hsame, RunStatus.ended.inj hended⟩

/-- A run that is over has ended with some outcome. -/
theorem exists_ended {r : Nat} (hover : (h.runs[r]?).any Run.isOver = true) :
    ∃ outcome, h.status? r = some (.ended outcome) := by
  rw [status?]
  cases hrun : h.runs[r]? with
  | none => simp [hrun] at hover
  | some run =>
    cases hst : run.status with
    | ended outcome => exact ⟨outcome, congrArg some hst⟩
    | _ => simp [hrun, Run.isOver, hst] at hover

/-- One run never commits. The other commits after its batch, and its write hangs until the flush is
given up. The task of both is lost then. -/
theorem undisturbed_by_hanging_write :
    let s (policy : Policy) (flushTimeout : Nat) : Setup :=
      { config := { name := "engine", connectorClass := "source", flushTimeout
                    keyConverter := .json, valueConverter := .json, properties := [] }
        registry := Registry.empty.register "source" {}
        policy
        consumer := fun _ => {} }
    let x : Record :=
      { partition := [("shard", .number (.integer 1))], offset := [("row", .number (.integer 7))]
        topic := "rows", key := none, value := .null, timestamp := none }
    let script (n : Nat) : Polled :=
      if n = 0 then .batch [x] else .fails (.failed { shown := "gone" })
    let h₁ : Host := {}
    let h₂ : Host := { store := { plan := { sets := fun _ => .hangs } } }
    let fed (h : Host) : Host := (h.request.provide (script 0)).provide (script 1)
    let y₁ := (fed h₁).runOn (s (.const false) 5000) 0 20
    let waiting := (fed h₂).runOn (s .always 1) 0 20
    let hanging := waiting.turnWrite 0
    let y₂ := { hanging with now := 1000000 }.runOn (s .always 1) 0 20
    Alike (s (.const false) 5000) (s .always 1) h₁ h₂ ∧
      Continues (s (.const false) 5000) script (0, h₁.request) (2, y₁) ∧
      Continues (s .always 1) script (0, h₂.request) (2, y₂) ∧
      ∃ outcome outcome', y₁.status? 0 = some (.ended outcome) ∧
        y₂.status? 0 = some (.ended outcome') ∧ y₁.trailOf = y₂.trailOf ∧ outcome = outcome' := by
  intro s x script h₁ h₂ fed y₁ waiting hanging y₂
  have ha : Alike (s (.const false) 5000) (s .always 1) h₁ h₂ :=
    { setups := rfl
      timeouts := ⟨by decide, by decide⟩
      fresh := ⟨⟨rfl, rfl, rfl, rfl⟩, ⟨rfl, rfl, rfl, rfl⟩⟩
      unfed := ⟨rfl, rfl⟩
      agrees := ⟨rfl, rfl, rfl, rfl, rfl, rfl, rfl, rfl, rfl, rfl⟩
      content := rfl }
  have hx : Continues (s (.const false) 5000) script (0, h₁.request) (2, y₁) :=
    Continues.runOn (.tail (.tail .refl (.provide 0 _)) (.provide 1 _)) 20
  have hwaits : Continues (s .always 1) script (0, h₂.request) (2, waiting) :=
    Continues.runOn (.tail (.tail .refl (.provide 0 _)) (.provide 1 _)) 20
  have hnow : hanging.now ≤ 1000000 := by decide +kernel
  have hy : Continues (s .always 1) script (0, h₂.request) (2, y₂) :=
    Continues.runOn (.tail (.tail hwaits (.write 2 _ 0)) (.pass 2 _ hnow)) 20
  obtain ⟨outcome, ho⟩ := exists_ended (r := 0) (h := y₁) (by decide +kernel)
  obtain ⟨outcome', ho'⟩ := exists_ended (r := 0) (h := y₂) (by decide +kernel)
  clear_value y₁ y₂
  obtain ⟨-, hsame, -⟩ := ha.undisturbed hx hy
  exact ⟨ha, hx, hy, outcome, outcome', ho, ho', hsame _ _ ho ho'⟩

end Host

end ChangeCapture
