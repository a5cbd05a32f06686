import ChangeCapture.Proofs.Run.Course

/-!
# Single execution

State, latch and flag of a lifecycle are three cells that different callers change. They always
agree on whether a run is active: a run claims the place for runs as it is accepted, and however it
ends its end gives the place free, counts the latch down and lets the flag fall.

## Main definitions

* `Host.Coherent`: the invariant.
* `stopsOf`: how many stops a run was granted from outside.
* `SingleExecution`: what holds of a host at every moment.

## Main results

* `Course.coherent` — the cells agree after any moves.
* `Course.single_execution` — the whole of it.
-/

namespace ChangeCapture

namespace Lifecycle

variable {l l' : Lifecycle}

/-- What a run makes of a lifecycle as it is accepted. -/
theorem start?_eq (h : l.start? = some l') :
    l' = { l with state := .running, latch := l.latch.up } := by
  rw [start?] at h
  split at h
  · exact (Option.some.inj h).symm
  · exact (Option.some.inj h).symm
  · cases h
  · cases h

/-- A place that is not taken can be claimed. -/
theorem exists_start? (h : l.isTaken = false) : ∃ l', l.start? = some l' := by
  rw [isTaken] at h
  rw [start?]
  cases hs : l.state <;> rw [hs] at h <;> first | exact ⟨_, rfl⟩ | cases h

/-- A place that is taken cannot be claimed. -/
theorem start?_eq_none (h : l.isTaken = true) : l.start? = none := by
  cases hl : l.start? with
  | none => rfl
  | some l' =>
    rw [(Host.isTaken_start? hl).1] at h
    cases h

/-- The place is taken in two states. -/
theorem isTaken_iff : l.isTaken = true ↔ l.state = .running ∨ l.state = .stopping := by
  rw [isTaken]
  cases l.state <;> simp

/-- A lifecycle between two runs. -/
theorem eq_of_not_isTaken (ht : l.isTaken = false) (hidle : l.state ≠ .idle)
    (hlatch : l.latch.count = 0) (hcalm : l.interrupted = false) : l = { state := .stopped } := by
  obtain ⟨state, ⟨count⟩, interrupted⟩ := l
  obtain rfl : count = 0 := hlatch
  obtain rfl : interrupted = false := hcalm
  cases state with
  | idle => exact absurd rfl hidle
  | running | stopping => cases ht
  | stopped => rfl

/-- Nothing is granted while nothing runs. -/
theorem not_grants (c : Control) (ht : l.isTaken = false) (hl : l.latch.count = 0) :
    l.grants c = false := by
  cases c with
  | stop =>
    rw [grants_stop, isRunning]
    rw [isTaken] at ht
    cases hs : l.state <;> rw [hs] at ht <;> first | rfl | cases ht
  | interrupt =>
    rw [grants_interrupt, Latch.isOpen, hl]
    rfl

end Lifecycle

/-- How many stops a run may still be granted. -/
def RunStatus.stopsLeft (l : Lifecycle) : RunStatus → Nat
  | .active _ => l.isRunning.toNat
  | .requested | .ended _ => 0

/-- How many stops a run was granted from outside. -/
def stopsOf (r : Nat) (asked : List Asked) : Nat :=
  asked.countP fun q => q.isGranted && q.control = .stop && q.host.isActive r

/-- A request grants a stop, or leaves as many to be granted as there were. -/
theorem stopsOf_cons {r : Nat} {c : Control} {h : Host} (hact : h.isActive r = true)
    (asked : List Asked) :
    stopsOf r (⟨c, h⟩ :: asked) + (h.lifecycle.heed c).isRunning.toNat =
      stopsOf r asked + h.lifecycle.isRunning.toNat := by
  rw [stopsOf, List.countP_cons, ← stopsOf, Asked.isGranted_eq, hact]
  cases c with
  | stop =>
    rw [Lifecycle.isRunning_heed_stop, Lifecycle.grants_stop]
    cases h.lifecycle.isRunning <;> rfl
  | interrupt =>
    rw [Lifecycle.isRunning_heed_interrupt]
    simp

/-- A run to which nothing was said was granted no stop. -/
theorem stopsOf_eq_zero {r : Nat} {asked : List Asked}
    (hno : ∀ q ∈ asked, q.host.isActive r = false) : stopsOf r asked = 0 := by
  refine List.countP_eq_zero.mpr fun q hq => ?_
  rw [hno q hq, Bool.and_false]
  exact Bool.false_ne_true

namespace Host

variable {s : Setup} {r : Nat} {h h' h₁ : Host} {st st' : RunStatus} {es : List Event}
    {a a' : Active} {l' : Lifecycle} {outcome : RunEnd}

/-! ### What flows do to the lifecycle -/

/-- A run that is accepted claims the place. -/
theorem Flow.start?_eq (hf : Flow s h .requested es (.active a) l') :
    h.lifecycle.start? = some l' := by
  cases hf with
  | enters hl => exact hl

/-- A run that ends in its first step was not accepted, or gives the place free again. -/
theorem Flow.turned_away (hf : Flow s h .requested es (.ended outcome) l') :
    es = [] ∧ l' = h.lifecycle ∨ ∃ l, h.lifecycle.start? = some l ∧ l' = l.finish := by
  cases hf with
  | passes | drops => exact .inl ⟨rfl, rfl⟩
  | turnsBack hl => exact .inr ⟨_, hl, rfl⟩

/-- A run that goes on keeps the place. -/
theorem Flow.keeps_place (hf : Flow s h (.active a) es (.active a') l') :
    l'.isTaken = h.lifecycle.isTaken ∧ l'.latch = h.lifecycle.latch := by
  cases hf with
  | hands cs | rejects cs =>
    exact ⟨h.lifecycle.isTaken_heedAll cs, h.lifecycle.latch_heedAll cs⟩
  | _ => exact ⟨rfl, rfl⟩

/-- A run that ends gives the place free. -/
theorem Flow.gives_free (hf : Flow s h (.active a) es (.ended outcome) l') :
    l' = h.lifecycle.finish := by
  cases hf
  rfl

/-! ### The cells agree -/

/-- **The cells of a lifecycle agree** on whether a run is active. -/
structure Coherent (h : Host) : Prop where
  claimed : h.lifecycle.isTaken = true → ∃ r, h.isActive r = true
  latch : h.lifecycle.latch.count = h.lifecycle.isTaken.toNat
  calm : h.lifecycle.isTaken = false → h.lifecycle.interrupted = false
  unused : h.lifecycle.state = .idle → ∀ r, .accepted ∉ eventsOf r h.history

/-- The cells of a fresh host agree. -/
theorem Fresh.coherent (hf : h.Fresh) : h.Coherent where
  claimed ht := by rw [hf.lifecycle] at ht; cases ht
  latch := by rw [hf.lifecycle]; rfl
  calm _ := by rw [hf.lifecycle]
  unused _ r := by rw [hf.history]; exact List.not_mem_nil

/-- A host in whose lifecycle a run has the place, and whose latch counts one. -/
theorem Coherent.of_active (hact : h.isActive r = true) (ht : h.lifecycle.isTaken = true)
    (hl : h.lifecycle.latch.count = 1) : h.Coherent where
  claimed _ := ⟨r, hact⟩
  latch := by rw [hl, ht]; rfl
  calm hfree := by rw [ht] at hfree; cases hfree
  unused hs := by
    rw [Lifecycle.isTaken, hs] at ht
    cases ht

/-- A host in whose lifecycle a run has just ended. -/
theorem Coherent.of_free (hl : h.lifecycle = { state := .stopped }) : h.Coherent where
  claimed ht := by rw [hl] at ht; cases ht
  latch := by rw [hl]; rfl
  calm _ := by rw [hl]
  unused hs := by rw [hl] at hs; cases hs

/-- A request keeps the cells in agreement. -/
theorem Coherent.ask (hc : h.Coherent) (c : Control) : (h.ask c).2.Coherent := by
  rw [ask_eq]
  cases ht : h.lifecycle.isTaken with
  | false =>
    have hlatch := hc.latch
    rw [ht] at hlatch
    rw [Lifecycle.heed_of_not_grants (Lifecycle.not_grants c ht hlatch)]
    exact hc
  | true =>
    obtain ⟨r, hact⟩ := hc.claimed ht
    refine .of_active (r := r) hact ?_ ?_
    · exact (Lifecycle.isTaken_heed c h.lifecycle).trans ht
    · have hlatch := hc.latch
      rw [ht] at hlatch
      exact (congrArg Latch.count (Lifecycle.latch_heed c h.lifecycle)).trans hlatch

/-- An active run stays active in a move that concerns no run. -/
theorem Idles.isActive (hi : h.Idles h') (hact : h.isActive r = true) : h'.isActive r = true := by
  obtain ⟨a, ha⟩ := isActive_iff.mp hact
  exact isActive_iff.mpr ⟨a, hi.status?_eq ha⟩

/-- What leaves the lifecycle and the active runs as they are keeps the cells in agreement. -/
theorem Coherent.same (hc : h.Coherent) (hl : h'.lifecycle = h.lifecycle)
    (hact : ∀ r, h.isActive r = true → h'.isActive r = true)
    (hacc : ∀ r, .accepted ∈ eventsOf r h'.history → .accepted ∈ eventsOf r h.history) :
    h'.Coherent where
  claimed ht := by
    rw [hl] at ht
    obtain ⟨r, hr⟩ := hc.claimed ht
    exact ⟨r, hact r hr⟩
  latch := by rw [hl]; exact hc.latch
  calm := by rw [hl]; exact hc.calm
  unused hs r hm := by
    rw [hl] at hs
    exact hc.unused hs r (hacc r hm)

/-- A move that concerns no run keeps the cells in agreement. -/
theorem Coherent.idles (hc : h.Coherent) (hi : h.Idles h') : h'.Coherent := by
  refine hc.same hi.lifecycle (fun r => hi.isActive) fun r hm => ?_
  obtain ⟨es, hes, heq⟩ := hi.events r
  rw [heq, List.mem_append] at hm
  exact hm.resolve_left (Event.not_mem_of_all hes rfl)

/-- **An accepted run that ends leaves a lifecycle as it was built**, but for the state. -/
theorem Coherent.resets (hc : h.Coherent) (ho : h.Orderly) (hst : h.status? r = some st)
    (hf : Flow s h st es (.ended outcome) l') :
    l' = { state := .stopped } ∨ es = [] ∧ st = .requested ∧ l' = h.lifecycle := by
  have hfinish : ∀ l : Lifecycle, l.latch.count = 1 → l.finish = { state := .stopped } := by
    rintro ⟨state, ⟨count⟩, interrupted⟩ ⟨⟩
    rfl
  have hlatch := hc.latch
  cases st with
  | requested =>
    rcases hf.turned_away with ⟨hes, heq⟩ | ⟨l, hl, heq⟩
    · exact .inr ⟨hes, rfl, heq⟩
    · rw [(isTaken_start? hl).1] at hlatch
      refine .inl (heq.trans (hfinish l ?_))
      rw [Lifecycle.start?_eq hl, Latch.up, hlatch]
      rfl
  | active a =>
    rw [ho.taken r a hst] at hlatch
    exact .inl (hf.gives_free.trans (hfinish h.lifecycle hlatch))
  | ended outcome => exact absurd rfl (hf.ne_ended outcome)

/-- A step of a run keeps the cells in agreement. -/
theorem Coherent.flows (hc : h.Coherent) (ho : h.Orderly) (hst : h.status? r = some st)
    (hadds : h.Adds r es h₁) (hf : Flow s h st es st' h₁.lifecycle) :
    (h₁.setStatus r st').Coherent := by
  have hlatch := hc.latch
  cases st' with
  | requested => exact absurd rfl hf.ne_requested
  | active a' =>
    have hactive : (h₁.setStatus r (.active a')).isActive r = true :=
      isActive_iff.mpr ⟨a', by rw [hadds.status?_setStatus hst, if_pos rfl]⟩
    cases st with
    | requested =>
      have hl := hf.start?_eq
      rw [(isTaken_start? hl).1] at hlatch
      refine .of_active hactive (isTaken_start? hl).2 ?_
      change h₁.lifecycle.latch.count = 1
      rw [Lifecycle.start?_eq hl, Latch.up, hlatch]
      rfl
    | active a =>
      have ht := ho.taken r a hst
      rw [ht] at hlatch
      obtain ⟨htaken, hkept⟩ := hf.keeps_place
      exact .of_active hactive (htaken.trans ht) ((congrArg Latch.count hkept).trans hlatch)
    | ended outcome => exact absurd rfl (hf.ne_ended outcome)
  | ended outcome =>
    rcases hc.resets ho hst hf with heq | ⟨rfl, rfl, heq⟩
    · exact .of_free heq
    · refine hc.same heq (fun r' hact => ?_) fun r' hm => ?_
      · obtain ⟨a, ha⟩ := isActive_iff.mp hact
        have hr : r ≠ r' := by
          rintro rfl
          rw [hst] at ha
          cases ha
        exact isActive_iff.mpr ⟨a, by rw [hadds.status?_setStatus hst, if_neg hr, ha]⟩
      · have hm : .accepted ∈ eventsOf r' h₁.history := hm
        rw [hadds.mem_eventsOf_iff] at hm
        exact hm.resolve_left fun ⟨_, hno⟩ => nomatch hno

/-! ### What one step may grant and accept -/

/-- The stops that a step grants, and those that may still be granted after it. -/
theorem Flow.stops_le (hf : Flow s h (.active a) es st' l') :
    stopsGranted es + st'.stopsLeft l' ≤ h.lifecycle.isRunning.toNat := by
  cases hf with
  | hands cs =>
    have hreplies := h.lifecycle.stopsGranted_replies cs
    rw [stopsGranted_cons, stopsGranted_append]
    change _ + 0 + 0 + (h.lifecycle.heedAll cs).isRunning.toNat ≤ _
    omega
  | rejects cs =>
    have hreplies := h.lifecycle.stopsGranted_replies cs
    rw [stopsGranted_cons]
    change _ + 0 + (h.lifecycle.heedAll cs).isRunning.toNat ≤ _
    omega
  | ends _ hstops => exact hstops
  | prepares _ hes | flushes _ hes | releases _ hes =>
    rw [stopsGranted_quiet hes, Nat.zero_add]
    exact Nat.le_refl _
  | begins _ hes =>
    rw [stopsGranted_append, stopsGranted_quiet hes, Nat.zero_add]
    exact Nat.le_of_eq (Nat.zero_add _)
  | consults _ hes hes' =>
    rw [stopsGranted_append, stopsGranted_cons, stopsGranted_quiet hes, stopsGranted_quiet hes',
      Nat.zero_add]
    exact Nat.le_of_eq (Nat.zero_add _)
  | _ => exact Nat.le_of_eq (Nat.zero_add _)

/-- The first step of a run grants no stop. -/
theorem Flow.stops_le_one (hf : Flow s h .requested es st' l') :
    stopsGranted es + st'.stopsLeft l' ≤ 1 := by
  cases hf with
  | passes | drops => exact Nat.zero_le 1
  | enters _ hes =>
    rw [stopsGranted_cons, stopsGranted_quiet hes]
    exact (Nat.zero_add _).trans_le (Bool.toNat_le _)
  | turnsBack _ hes =>
    rw [stopsGranted_cons, stopsGranted_quiet hes]
    exact Nat.zero_le 1

/-- A run is accepted as it becomes active. -/
theorem Flow.accepted (hf : Flow s h .requested es (.active a) l') : .accepted ∈ es := by
  cases hf
  exact List.mem_cons_self

/-- A run beside an active one is over at once, and nothing else changes. -/
theorem advance_beside (hrun : h.runs[r]? = some {}) (ht : h.lifecycle.isTaken = true) :
    h.advance s r = some (h.setStatus r (.ended (.returned (.ok .alreadyRunning)))) := by
  rw [advance, hrun]
  simp only [Bool.false_eq_true, ↓reduceIte, begin, Lifecycle.start?_eq_none ht]
  rfl

/-- **A run is accepted while nothing runs**: its first step is taken at once. -/
theorem begin_accepts (s : Setup) (r : Nat) (hfree : h.lifecycle.isTaken = false) :
    ∃ h', absorb r (h.begin s r) = some h' ∧ .accepted ∈ eventsOf r h'.history := by
  obtain ⟨l, hl⟩ := Lifecycle.exists_start? hfree
  have accepts : ∀ (es : List Event) {h₁ : Host} {st' : RunStatus},
      h.Adds r (.accepted :: es) h₁ → .accepted ∈ eventsOf r (h₁.setStatus r st').history :=
    fun es _ _ hadds => hadds.mem_eventsOf_self List.mem_cons_self
  have fails : ∀ e, ∃ h', absorb r
      (({ h with lifecycle := l }.emit r .accepted).leave r (.error e)) = some h' ∧
        .accepted ∈ eventsOf r h'.history := fun e =>
    ⟨_, rfl, accepts (closing (.error e)) ⟨rfl, rfl, rfl⟩⟩
  rw [begin, hl]
  dsimp only
  split
  · exact fails _
  · split
    · exact fails _
    · simp only [PlannedStore.callStart]
      split
      · exact ⟨_, rfl, accepts [.createConnector, .startStore, .ended .panicked] ⟨rfl, rfl, rfl⟩⟩
      · exact ⟨_, rfl, accepts [.createConnector, .startStore] ⟨rfl, rfl, rfl⟩⟩

end Host

/-! ### Courses -/

namespace Course

open Host

variable {s : Setup} {h₀ h : Host} {asked : List Asked} {r : Nat} {st : RunStatus}

/-- The host of every request was reached on the course. -/
theorem of_mem (hc : Course s h₀ asked h) {q : Asked} (hq : q ∈ asked) :
    ∃ earlier, Course s h₀ earlier q.host := by
  induction hc with
  | start => cases hq
  | @ask asked h hc c ih =>
    rcases List.mem_cons.mp hq with rfl | hq
    · exact ⟨asked, hc⟩
    · exact ih hq
  | move _ _ _ ih => exact ih hq

/-- Steps of a run, as far as they go. -/
theorem runOn (hc : Course s h₀ asked h) (r fuel : Nat) : Course s h₀ asked (h.runOn s r fuel) :=
  runOn_of_steps (fun hadv hc => hc.move (.run r hadv) (.inr ⟨r, hadv⟩)) hc fuel

/-- **The cells of a lifecycle agree** after any moves. -/
theorem coherent (hf : h₀.Fresh) (hc : Course s h₀ asked h) : h.Coherent :=
  hc.induct (P := fun _ h => h.Coherent) hf.coherent (fun c _ ih => ih.ask c)
    (fun _ hi ih => ih.idles hi)
    fun hc hst hadds hflow ih => ih.flows (Reaches.orderly hf hc.reaches) hst hadds hflow

/-- An active run was accepted. -/
theorem accepted (hf : h₀.Fresh) (hc : Course s h₀ asked h) (hact : h.isActive r = true) :
    .accepted ∈ eventsOf r h.history := by
  obtain ⟨a, ha⟩ := isActive_iff.mp hact
  refine hc.life (P := fun _ st es _ => ∀ a, st = .active a → .accepted ∈ es) hf ?_ ?_ ?_ ?_ ?_ ha
    nofun a rfl
  · rintro _ _ es _ _ - - hflow a rfl
    exact List.mem_reverse.mpr hflow.accepted
  · exact fun _ ih a ha => List.mem_append_right _ (ih a ha)
  · exact fun _ _ ih a ha => ih a ha
  · exact fun _ _ _ ih _ _ => List.mem_append_right _ (ih _ rfl)
  · exact fun _ _ _ _ ha => nomatch ha

/-- **The runs that are accepted and not over are those that are active.** -/
theorem isUnfinished_iff (hf : h₀.Fresh) (hc : Course s h₀ asked h) :
    h.IsUnfinished r ↔ h.isActive r = true := by
  constructor
  · rintro ⟨hacc, hlive⟩
    cases hst : h.status? r with
    | none =>
      rw [hc.eventsOf_eq_nil hf (.inl hst)] at hacc
      cases hacc
    | some st =>
      cases st with
      | requested =>
        rw [hc.eventsOf_eq_nil hf (.inr hst)] at hacc
        cases hacc
      | active a => exact isActive_iff.mpr ⟨a, hst⟩
      | ended outcome => exact absurd hst (hlive outcome)
  · intro hact
    refine ⟨hc.accepted hf hact, fun outcome hend => ?_⟩
    obtain ⟨a, ha⟩ := isActive_iff.mp hact
    rw [ha] at hend
    cases hend

/-- The stops that a run was granted, and those that it may still be granted. -/
theorem stops_le (hf : h₀.Fresh) (hc : Course s h₀ asked h) (hst : h.status? r = some st)
    (hreq : st ≠ .requested) :
    stopsOf r asked + stopsGranted (eventsOf r h.history) + st.stopsLeft h.lifecycle ≤ 1 := by
  refine hc.life (P := fun asked st es l => stopsOf r asked + stopsGranted es + st.stopsLeft l ≤ 1)
    hf ?_ ?_ ?_ ?_ ?_ hst hreq
  · intro asked h es st' l' _ hno hflow
    have hle := hflow.stops_le_one
    rw [stopsOf_eq_zero hno, stopsGranted_reverse]
    omega
  · intro asked st es l es' hes ih
    rwa [stopsGranted_append, stopsGranted_quiet hes, Nat.zero_add]
  · intro asked h a c ha ih
    have hcount := stopsOf_cons (c := c) (isActive_iff.mpr ⟨a, ha⟩) asked
    change _ + _ + (h.lifecycle.heed c).isRunning.toNat ≤ 1
    change _ + _ + h.lifecycle.isRunning.toNat ≤ 1 at ih
    omega
  · intro asked h a es st' l' _ _ hflow ih
    have hle := hflow.stops_le
    rw [stopsGranted_append, stopsGranted_reverse]
    change _ + _ + h.lifecycle.isRunning.toNat ≤ 1 at ih
    omega
  · intro asked outcome es l l' newer hno ih
    rw [stopsOf, List.countP_append, ← stopsOf, ← stopsOf, stopsOf_eq_zero hno, Nat.zero_add]
    exact ih

/-- **A run is granted at most one stop**, from outside or by its own consumer. -/
theorem stops_le_one (hf : h₀.Fresh) (hc : Course s h₀ asked h) (r : Nat) :
    stopsOf r asked + stopsGranted (eventsOf r h.history) ≤ 1 := by
  obtain hst | ⟨st, hst, hreq⟩ := status?_cases r h
  · rw [stopsOf_eq_zero (hc.unheard hst), hc.eventsOf_eq_nil hf hst]
    exact Nat.zero_le 1
  · have hle := hc.stops_le hf hst hreq
    omega

end Course

/-! ### Single execution -/

/-- **One run at a time**: what holds of a host at every moment, with all that it was asked. -/
structure SingleExecution (s : Setup) (asked : List Asked) (h : Host) : Prop where
  /-- At most one accepted run is unfinished. -/
  alone : ∀ r r', h.IsUnfinished r → h.IsUnfinished r' → r = r'
  /-- The state says whether one is. -/
  state : h.lifecycle.state = .running ∨ h.lifecycle.state = .stopping ↔ ∃ r, h.IsUnfinished r
  /-- The latch is one while one is, and otherwise zero. -/
  latch : (h.lifecycle.latch.count = 1 ↔ ∃ r, h.IsUnfinished r) ∧
    (h.lifecycle.latch.count = 0 ↔ ∀ r, ¬ h.IsUnfinished r)
  /-- Meanwhile another run is over in its first step, and that is all that happens. -/
  turnsAway : ∀ r, h.runs[r]? = some {} → (∃ r', h.IsUnfinished r') →
    h.advance s r = some (h.setStatus r (.ended (.returned (.ok .alreadyRunning))))
  /-- A run is granted at most one stop, from outside or by its own consumer. -/
  stopsOnce : ∀ r, stopsOf r asked + stopsGranted (eventsOf r h.history) ≤ 1
  /-- What is granted from outside is granted to an unfinished run. -/
  grantsSomeone : ∀ q ∈ asked, q.isGranted = true →
    ∃ r, q.host.IsUnfinished r ∧ q.host.isActive r = true
  /-- However an accepted run ends, state, latch and flag are then as they are between runs. -/
  resets : ∀ r h' outcome, h.advance s r = some h' → .accepted ∈ eventsOf r h'.history →
    h'.status? r = some (.ended outcome) →
    h'.lifecycle = { state := .stopped, latch := { count := 0 }, interrupted := false }
  /-- And so they stay until the next run. -/
  rests : (∃ r, .accepted ∈ eventsOf r h.history) → (∀ r, ¬ h.IsUnfinished r) →
    h.lifecycle = { state := .stopped, latch := { count := 0 }, interrupted := false }
  /-- The next run is accepted in its first step. -/
  accepts : ∀ r, h.runs[r]? = some {} → (∀ r', ¬ h.IsUnfinished r') →
    ∃ h', h.advance s r = some h' ∧ .accepted ∈ eventsOf r h'.history

namespace Course

open Host

variable {s : Setup} {h₀ h : Host} {asked : List Asked}

/-- The place is taken exactly while a run is unfinished. -/
theorem isTaken_iff (hf : h₀.Fresh) (hc : Course s h₀ asked h) :
    h.lifecycle.isTaken = true ↔ ∃ r, h.IsUnfinished r := by
  simp only [hc.isUnfinished_iff hf]
  refine ⟨(hc.coherent hf).claimed, fun ⟨r, hact⟩ => ?_⟩
  obtain ⟨a, ha⟩ := isActive_iff.mp hact
  exact (Reaches.orderly hf hc.reaches).taken r a ha

/-- The place is free exactly while no run is unfinished. -/
theorem not_isTaken_iff (hf : h₀.Fresh) (hc : Course s h₀ asked h) :
    h.lifecycle.isTaken = false ↔ ∀ r, ¬ h.IsUnfinished r := by
  rw [← Bool.not_eq_true, hc.isTaken_iff hf, not_exists]

/-- **Single execution, and a full reset.** Whatever happens to a host, with any number of runs that
return, panic or are dropped at any moment, at most one accepted run is unfinished; state and latch
say whether one is; another run is turned away meanwhile and nothing else happens; a run is granted
one stop at most; and however an accepted run ends, the lifecycle is then as it is between runs, and
the next run is accepted. -/
theorem single_execution (hf : h₀.Fresh) (hc : Course s h₀ asked h) :
    SingleExecution s asked h := by
  have ho := Reaches.orderly hf hc.reaches
  have hcoh := hc.coherent hf
  constructor
  case alone =>
    intro r r' hr hr'
    rw [hc.isUnfinished_iff hf, isActive_iff] at hr hr'
    obtain ⟨a, ha⟩ := hr
    obtain ⟨a', ha'⟩ := hr'
    exact ho.alone r r' a a' ha ha'
  case state => rw [← Lifecycle.isTaken_iff, hc.isTaken_iff hf]
  case latch =>
    rw [hcoh.latch, ← hc.isTaken_iff hf, ← hc.not_isTaken_iff hf]
    cases h.lifecycle.isTaken <;> simp
  case turnsAway =>
    intro r hrun hbusy
    exact advance_beside hrun ((hc.isTaken_iff hf).mpr hbusy)
  case stopsOnce => exact hc.stops_le_one hf
  case grantsSomeone =>
    intro q hq hgranted
    obtain ⟨earlier, hcq⟩ := hc.of_mem hq
    cases ht : q.host.lifecycle.isTaken with
    | true =>
      obtain ⟨r, hr⟩ := (hcq.isTaken_iff hf).mp ht
      exact ⟨r, hr, (hcq.isUnfinished_iff hf).mp hr⟩
    | false =>
      have hlatch := (hcq.coherent hf).latch
      rw [ht] at hlatch
      rw [Asked.isGranted_eq, Lifecycle.not_grants q.control ht hlatch] at hgranted
      cases hgranted
  case resets =>
    intro r h' outcome hadv hacc hend
    obtain ⟨st, es, st', h₁, hst, hadds, hflow, rfl⟩ := advance_flows hadv
    rw [hadds.status?_setStatus hst, if_pos rfl, Option.some.injEq] at hend
    subst hend
    rcases hcoh.resets ho hst hflow with heq | ⟨rfl, rfl, -⟩
    · exact heq
    · have hacc : .accepted ∈ eventsOf r h₁.history := hacc
      rw [hadds.eventsOf_self, hc.eventsOf_eq_nil hf (.inr hst)] at hacc
      cases hacc
  case rests =>
    rintro ⟨r, hacc⟩ hnone
    have hfree := (hc.not_isTaken_iff hf).mpr hnone
    have hlatch := hcoh.latch
    rw [hfree] at hlatch
    exact Lifecycle.eq_of_not_isTaken hfree (fun hidle => hcoh.unused hidle r hacc) hlatch
      (hcoh.calm hfree)
  case accepts =>
    intro r hrun hnone
    obtain ⟨h', hbegin, hacc⟩ := begin_accepts s r ((hc.not_isTaken_iff hf).mpr hnone)
    refine ⟨h', ?_, hacc⟩
    rw [advance, hrun]
    exact hbegin

/-- A run that polls is asked to stop twice: one stop is granted, and another run that is asked for
meanwhile is turned away. -/
theorem single_execution_while_polling :
    let s : Setup :=
      { config := { name := "engine", connectorClass := "source", flushTimeout := 5000
                    keyConverter := .json, valueConverter := .json, properties := [] }
        registry := Registry.empty.register "source" {}
        consumer := fun _ => {} }
    let h₁ : Host := Host.request {} |>.runOn s 0 12
    let h₂ := (h₁.ask .stop).2
    let h := (h₂.ask .stop).2.request
    stopsOf 0 [⟨.stop, h₂⟩, ⟨.stop, h₁⟩] = 1 ∧
      h.advance s 1 = some (h.setStatus 1 (.ended (.returned (.ok .alreadyRunning)))) := by
  intro s h₁ h₂ h
  have hf : Fresh {} := ⟨rfl, rfl, rfl, rfl⟩
  have hstart : Course s {} [] (Host.request {}) := Course.start.move .request (.inl rfl)
  have hc : Course s {} [⟨.stop, h₂⟩, ⟨.stop, h₁⟩] h :=
    (((hstart.runOn 0 12).ask .stop).ask .stop).move .request (.inl rfl)
  have hbusy : h.IsUnfinished 0 := (hc.isUnfinished_iff hf).mpr rfl
  exact ⟨rfl, (single_execution hf hc).turnsAway 1 rfl ⟨0, hbusy⟩⟩

end Course

end ChangeCapture
