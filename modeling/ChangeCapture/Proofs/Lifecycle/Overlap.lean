import ChangeCapture.Lifecycle.Shared
import Mathlib.Data.List.Infix

/-!
# Calls that overlap

What calls to a shared lifecycle do by themselves is what the operations of `Lifecycle` do. When
they overlap, the latch still counts the runs that are not over, but the flag is not safe: an
interrupt looks at the latch first and raises the flag later, and the end of a run lowers the flag
first and counts the run later. Between the two of each, an interrupt finds a run whose end has
lowered the flag already. Nothing lowers the flag then, and the next run begins interrupted.

This is the only way. As long as an interrupt that has found a run raises the flag before the end
of the run lowers it, the flag is down whenever nothing runs and no call is halfway, and no
interrupt from before that is seen by the next run.

## Main definitions

* `Lifecycle.Call.atOnce`: what a call does that no other overlaps.
* `SharedLifecycle.Alone`: what a call does that is the only one to make accesses.
* `SharedLifecycle.Takes`: what a move does.
* `SharedLifecycle.Counted`: the latch counts the runs that are not over.
* `SharedLifecycle.Owes`, `SharedLifecycle.OnTime`: a run is to lower the flag, and no interrupt is
  late.
* `SharedLifecycle.Quiet`: no interrupt is in sight.

## Main results

* `SharedLifecycle.alone_first` — calls that do not overlap are the operations.
* `SharedLifecycle.Counted.follow?` — the latch counts right.
* `SharedLifecycle.lowered_at_rest` — no interrupt leaks if none is late.
* `SharedLifecycle.not_lowered_at_rest` — one that is late leaks.
-/

namespace ChangeCapture

open Lifecycle (Access Progress Call)

/-! ### What an access does -/

namespace Lifecycle

variable {l : Lifecycle} {a : Access}

/-- The end of a run is under way. -/
def Progress.isFinishing : Progress → Bool
  | .before .lower | .before .release | .before .countDown => true
  | .before _ | .returned _ => false

/-- A compare-and-set leaves the latch alone. -/
@[simp] theorem exchange_latch (l : Lifecycle) (expected new : RunState) :
    (l.exchange expected new).1.latch = l.latch := by
  rw [exchange]
  split <;> rfl

/-- A compare-and-set leaves the flag alone. -/
@[simp] theorem exchange_interrupted (l : Lifecycle) (expected new : RunState) :
    (l.exchange expected new).1.interrupted = l.interrupted := by
  rw [exchange]
  split <;> rfl

/-- The latch changes where runs are counted. -/
theorem count_perform (l : Lifecycle) (a : Access) : (a.perform l).1.latch.count =
    if a = .countUp then l.latch.count + 1
    else if a = .countDown then l.latch.count - 1 else l.latch.count := by
  cases a <;> simp [Access.perform, Latch.up, Latch.down, clearInterrupt]

/-- The flag goes up where it is raised, and down where it is lowered or taken back. -/
theorem interrupted_perform : (a.perform l).1.interrupted = true ↔
    a = .raise ∨ l.interrupted = true ∧ a ≠ .lower ∧ a ≠ .takeBack := by
  cases a <;> simp [Access.perform, clearInterrupt]

/-- The three accesses at the end of a run follow each other. -/
theorem isFinishing_perform : (a.perform l).2.isFinishing = true ↔ a = .lower ∨ a = .release := by
  cases a with
  | claimIdle | claimStopped | readLatch =>
    simp only [Access.perform]
    split <;> simp [Progress.isFinishing]
  | requestStop | countUp | raise | takeBack | lower | release | countDown =>
    simp [Access.perform, Progress.isFinishing]

/-- An interrupt that has found a run raises the flag next. -/
theorem perform_eq_raise : (a.perform l).2 = .before .raise ↔
    a = .readLatch ∧ l.latch.count ≠ 0 := by
  cases a with
  | claimIdle | claimStopped =>
    simp only [Access.perform]
    split <;> simp
  | readLatch => simp [Access.perform, Latch.isOpen]
  | requestStop | countUp | raise | takeBack | lower | release | countDown =>
    simp [Access.perform]

/-- **What a call does that no other overlaps**, and what it answers. -/
def Call.atOnce (l : Lifecycle) : Call → Lifecycle × Option Bool
  | .start => (l.start?.getD l, some l.start?.isSome)
  | .stop => (l.stop?.getD l, some l.stop?.isSome)
  | .interrupt => (l.interrupt?.getD l, some l.interrupt?.isSome)
  | .clearInterrupt => (l.clearInterrupt, some l.interrupted)
  | .finish => (l.finish, none)

end Lifecycle

namespace SharedLifecycle

variable {s s' : SharedLifecycle} {m : Move} {moves : List Move} {number : Nat} {a : Access}

/-! ### The moves of calls -/

/-- **What a move does.** -/
inductive Takes (s : SharedLifecycle) : Move → SharedLifecycle → Prop where
  | call {c : Call} (howed : c = .finish → 0 < s.unfinished) : Takes s (.call c) (s.called c)
  | turn {number : Nat} {a : Access} (hnext : s.calls[number]? = some (.before a)) :
      Takes s (.turn number) (s.accessed number a)

/-- A move is a call or an access of one. -/
theorem takes_of_move? (h : s.move? m = some s') : Takes s m s' := by
  cases m with
  | call c =>
    obtain ⟨howed, h⟩ := Option.ite_none_left_eq_some.mp h
    obtain rfl := Option.some.inj h
    exact .call fun hc => Nat.pos_of_ne_zero fun hzero => howed ⟨hc, hzero⟩
  | turn number =>
    rw [move?] at h
    split at h
    · rename_i a hnext
      obtain rfl := Option.some.inj h
      exact .turn hnext
    · cases h
    · cases h

/-- The first of some moves, and those after it. -/
theorem follow?_cons : s.follow? (m :: moves) = some s' ↔
    ∃ next, s.move? m = some next ∧ next.follow? moves = some s' := by
  rw [follow?, List.foldlM_cons]
  exact Option.bind_eq_some_iff

/-- **What every move keeps is kept**, where a move may rely on what is known whenever one is
made. -/
theorem follow?_induction {P Q : SharedLifecycle → Prop}
    (hstep : ∀ s m s', P s → Q s → Takes s m s' → P s') (hs : P s)
    (hmoves : s.follow? moves = some s')
    (hknown : ∀ earlier t, earlier <+: moves → earlier ≠ moves → s.follow? earlier = some t → Q t) :
    P s' := by
  induction moves generalizing s with
  | nil => exact Option.some.inj hmoves ▸ hs
  | cons m moves ih =>
    obtain ⟨next, hm, hrest⟩ := follow?_cons.mp hmoves
    have hnow : Q s := hknown [] s List.nil_prefix (by simp) rfl
    refine ih (hstep _ _ _ hs hnow (takes_of_move? hm)) hrest fun earlier t hearlier hne ht => ?_
    exact hknown (m :: earlier) t (List.cons_prefix_cons.mpr ⟨rfl, hearlier⟩) (by simp [hne])
      (follow?_cons.mpr ⟨next, hm, ht⟩)

/-! ### Calls that do not overlap -/

/-- **A call by itself**: how many accesses it makes, and what it has done and answers then. -/
def Alone (l : Lifecycle) (a : Access) (done : Lifecycle × Option Bool) : Prop :=
  ∀ calls unfinished, ∃ turns unfinished', follow? ⟨l, calls ++ [.before a], unfinished⟩
    (List.replicate turns (.turn calls.length)) =
      some ⟨done.1, calls ++ [.returned done.2], unfinished'⟩

/-- The next access of the call that was made last. -/
theorem move?_last (l : Lifecycle) (calls : List Progress) (unfinished : Nat) (a : Access) :
    ∃ unfinished', move? ⟨l, calls ++ [.before a], unfinished⟩ (.turn calls.length) =
      some ⟨(a.perform l).1, calls ++ [(a.perform l).2], unfinished'⟩ :=
  ⟨if a = .countUp then unfinished + 1 else unfinished, by simp [move?, accessed]⟩

/-- A call that is over after an access. -/
theorem alone_of_returned {l : Lifecycle} {answer : Option Bool}
    (h : (a.perform l).2 = .returned answer) : Alone l a ((a.perform l).1, answer) := by
  intro calls unfinished
  obtain ⟨unfinished', hmove⟩ := move?_last l calls unfinished a
  rw [h] at hmove
  exact ⟨1, unfinished', follow?_cons.mpr ⟨_, hmove, rfl⟩⟩

/-- A call that goes on after an access. -/
theorem alone_of_before {l : Lifecycle} {next : Access} {done : Lifecycle × Option Bool}
    (h : (a.perform l).2 = .before next) (hrest : Alone (a.perform l).1 next done) :
    Alone l a done := by
  intro calls unfinished
  obtain ⟨unfinished', hmove⟩ := move?_last l calls unfinished a
  rw [h] at hmove
  obtain ⟨turns, last, hturns⟩ := hrest calls unfinished'
  exact ⟨turns + 1, last, follow?_cons.mpr ⟨_, hmove, hturns⟩⟩

/-- **A call by itself is the operation.** -/
theorem alone_first (l : Lifecycle) (c : Call) : Alone l c.first (c.atOnce l) := by
  obtain ⟨state, latch, interrupted⟩ := l
  cases c with
  | start =>
    cases state with
    | idle => exact alone_of_before rfl (alone_of_returned rfl)
    | stopped => exact alone_of_before rfl (alone_of_before rfl (alone_of_returned rfl))
    | running | stopping => exact alone_of_before rfl (alone_of_returned rfl)
  | stop => cases state <;> exact alone_of_returned rfl
  | interrupt =>
    obtain ⟨_ | count⟩ := latch
    · exact alone_of_returned rfl
    · exact alone_of_before rfl (alone_of_returned rfl)
  | clearInterrupt => exact alone_of_returned rfl
  | finish => exact alone_of_before rfl (alone_of_before rfl (alone_of_returned rfl))

/-! ### What is counted -/

/-- **The latch counts the runs that are not over**: those that nobody has begun to finish, and
those whose end is under way. -/
def Counted (s : SharedLifecycle) : Prop :=
  s.lifecycle.latch.count = s.unfinished + s.calls.countP (·.isFinishing)

/-- The end of a run is under way until it is counted. -/
theorem countP_set_perform (hnext : s.calls[number]? = some (.before a)) :
    (s.calls.set number (a.perform s.lifecycle).2).countP (·.isFinishing) +
      (if a = .countDown then 1 else 0) = s.calls.countP (·.isFinishing) := by
  obtain ⟨hlt, hget⟩ := List.getElem?_eq_some_iff.mp hnext
  have hpos : (Progress.before a).isFinishing = true → 0 < s.calls.countP (·.isFinishing) :=
    fun h => List.countP_pos_iff.mpr ⟨_, List.mem_of_getElem? hnext, h⟩
  rw [List.countP_set hlt, hget]
  simp only [Lifecycle.isFinishing_perform]
  cases a with
  | lower | release | countDown =>
    simpa [Progress.isFinishing] using Nat.sub_add_cancel (hpos rfl)
  | claimIdle | claimStopped | countUp | requestStop | readLatch | raise | takeBack =>
    simp [Progress.isFinishing]

/-- A move keeps the count right. -/
theorem Counted.takes (h : s.Counted) (hm : Takes s m s') : s'.Counted := by
  unfold Counted at h ⊢
  cases hm with
  | @call c howed =>
    simp only [called, List.countP_append, List.countP_singleton, h]
    cases c with
    | finish =>
      have hpos := howed rfl
      simp only [Call.first, Progress.isFinishing, if_true]
      omega
    | start | stop | interrupt | clearInterrupt => simp [Call.first, Progress.isFinishing]
  | @turn number a hnext =>
    have hcount := countP_set_perform hnext
    simp only [accessed, Lifecycle.count_perform, h]
    cases a <;> simp at hcount ⊢ <;> omega

/-- **The latch counts right** however calls overlap. -/
theorem Counted.follow? (h : s.Counted) (hmoves : s.follow? moves = some s') : s'.Counted :=
  follow?_induction (Q := fun _ => True) (fun _ _ _ h _ => h.takes) h hmoves (by simp)

/-! ### The flag -/

/-- **A run is to lower the flag**: it has not begun to end, or it has and the flag is next. -/
def Owes (s : SharedLifecycle) : Prop :=
  0 < s.unfinished ∨ .before .lower ∈ s.calls

/-- **No interrupt is late**: one that has found a run and is about to raise the flag does so before
the end of a run lowers it. -/
def OnTime (s : SharedLifecycle) : Prop :=
  .before .raise ∈ s.calls → s.Owes

instance (s : SharedLifecycle) : Decidable s.OnTime :=
  inferInstanceAs (Decidable (_ → _ ∨ _))

/-- A run is to lower the flag until it does. -/
theorem Owes.takes (h : s.Owes) (hm : Takes s m s')
    (hlower : ∀ number, m = .turn number → s.calls[number]? ≠ some (.before .lower)) :
    s'.Owes := by
  cases hm with
  | @call c howed =>
    by_cases hc : c = .finish
    · exact .inr (by simp [called, hc, Call.first])
    · simp only [Owes, called, if_neg hc]
      exact h.imp_right (List.mem_append_left _)
  | @turn number a hnext =>
    refine h.imp (fun hpos => ?_) (fun hmem => ?_)
    · simp only [accessed]
      split <;> omega
    · -- The call that is about to lower the flag is another one.
      obtain ⟨i, hi⟩ := List.mem_iff_getElem?.mp hmem
      have hne : number ≠ i := fun heq => hlower number rfl (heq ▸ hi)
      exact List.mem_iff_getElem?.mpr ⟨i, by rw [accessed, List.getElem?_set_ne hne, hi]⟩

/-- **A flag that is up will be lowered.** -/
def Safe (s : SharedLifecycle) : Prop :=
  s.lifecycle.interrupted = true → s.Owes

/-- A move keeps the flag safe if no interrupt is late. -/
theorem Safe.takes (h : s.Safe) (htime : s.OnTime) (hm : Takes s m s') : s'.Safe := by
  intro hup
  cases hm with
  | call howed => exact (h hup).takes (.call howed) (by simp)
  | @turn number a hnext =>
    have howes : s.Owes ∧ a ≠ .lower := by
      obtain rfl | ⟨hbefore, hlower, -⟩ := Lifecycle.interrupted_perform.mp hup
      · exact ⟨htime (List.mem_of_getElem? hnext), by simp⟩
      · exact ⟨h hbefore, hlower⟩
    refine howes.1.takes (.turn hnext) fun i hi => ?_
    obtain rfl := Move.turn.inj hi
    simp [hnext, howes.2]

/-- The flag stays safe as long as no interrupt is late. -/
theorem Safe.follow? (h : s.Safe) (hmoves : s.follow? moves = some s')
    (htime : ∀ earlier t, earlier <+: moves → s.follow? earlier = some t → t.OnTime) : s'.Safe :=
  follow?_induction (fun _ _ _ => Safe.takes) h hmoves
    fun earlier t hearlier _ => htime earlier t hearlier

/-- When nothing runs and no call is halfway, nothing is to lower the flag. -/
theorem not_owes_of_atRest (hcounted : s.Counted) (h : s.AtRest) : ¬ s.Owes := by
  rintro (hpos | hmem)
  · rw [Counted, h.1] at hcounted
    omega
  · exact absurd (h.2 _ hmem) (by simp [Progress.isOver])

/-! ### The next run -/

/-- **No interrupt is in sight**: the flag is down and nobody is about to raise it. -/
def Quiet (s : SharedLifecycle) : Prop :=
  s.lifecycle.interrupted = false ∧ .before .raise ∉ s.calls

/-- As long as no run is counted, no interrupt comes in sight. -/
theorem Quiet.takes (h : s.Quiet) (hcount : s.lifecycle.latch.count = 0) (hm : Takes s m s') :
    s'.Quiet := by
  cases hm with
  | @call c howed =>
    refine ⟨h.1, ?_⟩
    cases c <;> simp [called, Call.first, h.2]
  | @turn number a hnext =>
    have hraise : a ≠ .raise := by
      rintro rfl
      exact h.2 (List.mem_of_getElem? hnext)
    refine ⟨?_, fun hmem => ?_⟩
    · rw [← Bool.not_eq_true, accessed, Lifecycle.interrupted_perform]
      simp [h.1, hraise]
    · obtain hbefore | hnow := List.mem_or_eq_of_mem_set hmem
      · exact h.2 hbefore
      · exact (Lifecycle.perform_eq_raise.mp hnow.symm).2 hcount

/-- No interrupt comes in sight until a run is counted. -/
theorem Quiet.follow? (h : s.Quiet) (hmoves : s.follow? moves = some s')
    (hcount : ∀ earlier t, earlier <+: moves → earlier ≠ moves → s.follow? earlier = some t →
      t.lifecycle.latch.count = 0) : s'.Quiet :=
  follow?_induction (fun _ _ _ => Quiet.takes) h hmoves hcount

/-- **No interrupt leaks into a later run if none is late.** Let calls overlap in any way, but let
every interrupt that has found a run raise the flag before the end of the run lowers it. Whenever
nothing runs and no call is halfway, the flag is down; and it stays down, with no interrupt about to
raise it, until the next run has been accepted and counted. -/
theorem lowered_at_rest (hmoves : ({} : SharedLifecycle).follow? moves = some s)
    (htime : ∀ earlier t, earlier <+: moves → ({} : SharedLifecycle).follow? earlier = some t →
      t.OnTime)
    (hrest : s.AtRest) :
    s.lifecycle.interrupted = false ∧
    ∀ later s', s.follow? later = some s' →
      (∀ earlier t, earlier <+: later → earlier ≠ later → s.follow? earlier = some t →
        t.lifecycle.latch.count = 0) →
      s'.Quiet := by
  have hcounted : s.Counted := Counted.follow? (s := {}) rfl hmoves
  have hsafe : s.Safe := Safe.follow? (s := {}) (by simp [Safe]) hmoves htime
  have hdown : s.lifecycle.interrupted = false :=
    Bool.eq_false_iff.mpr fun hup => not_owes_of_atRest hcounted hrest (hsafe hup)
  have hquiet : s.Quiet := ⟨hdown, fun hmem => absurd (hrest.2 _ hmem) (by simp [Progress.isOver])⟩
  exact ⟨hdown, fun later s' hlater hcount => hquiet.follow? hlater hcount⟩

/-- A run that is interrupted and finished while another attempt to start is made: the flag is down
at rest. -/
theorem lowered_at_rest_after_overlap :
    let moves : List Move := [.call .start, .turn 0, .turn 0, .call .interrupt, .call .start,
      .turn 1, .turn 2, .call .finish, .turn 1, .turn 3, .turn 2, .turn 3, .turn 3]
    ∃ s, ({} : SharedLifecycle).follow? moves = some s ∧ s.AtRest ∧
      s.lifecycle.interrupted = false := by
  intro moves
  have htime : ∀ earlier ∈ moves.inits, ∀ t ∈ ({} : SharedLifecycle).follow? earlier, t.OnTime := by
    decide
  refine ⟨_, rfl, by decide, (@lowered_at_rest _ moves rfl (fun earlier t hearlier ht => ?_)
    (by decide)).1⟩
  exact htime earlier ((List.mem_inits ..).mpr hearlier) t ht

/-- **An interrupt that is late leaks.** It finds a run, the end of the run lowers the flag, makes
the place free and is counted, and only then does the interrupt raise the flag. Nothing runs, no
call is halfway, and the flag is up. -/
theorem not_lowered_at_rest :
    ¬ ∀ moves s, ({} : SharedLifecycle).follow? moves = some s → s.AtRest →
      s.lifecycle.interrupted = false := by
  intro h
  have hleaked := h [.call .start, .turn 0, .turn 0, .call .interrupt, .turn 1, .call .finish,
    .turn 2, .turn 2, .turn 2, .turn 1] _ rfl (by decide)
  exact absurd hleaked (by decide)

end SharedLifecycle

end ChangeCapture
