import ChangeCapture.Lifecycle.Watch
import ChangeCapture.Proofs.Schedule
import Mathlib.Data.List.Basic

/-!
# What waiters answer

A waiter for completion knows of the latch only what it sees when it takes a turn. It answers yes at
the first turn at which nothing is counted, and no at the first turn at which something is counted
and its time is up; its time runs from its first turn. So a run that begins before it has taken a
turn hides the end of the run before.

Anything may happen between two turns, and the turns may come at any time.

## Main definitions

* `Watch.Happening`, `Watch.after`: what may happen to a lifecycle with waiters, in any order.
* `Watch.Sight`, `Watch.sights`: what a waiter sees at its turns.
* `Watch.AnswersYes`, `Watch.AnswersNo`, `Watch.GoesOn`: what a waiter has to answer to what it saw.
* `Waiter.verdict`: the answer as a function of what was seen.

## Main results

* `Watch.exists_after_timeline` — the waits of a host are such happenings.
* `Watch.answer_after` — an answer is decided by what was seen.
* `Watch.answers_truthfully` — when waiters answer, and what.
-/

namespace ChangeCapture

namespace Watch

/-- **What may happen** to a lifecycle with waiters. -/
inductive Happening where
  /-- The latch counts one more without a run. -/
  | up
  /-- The latch counts one less without a run. -/
  | down
  | start
  | stop
  | interrupt
  | clearInterrupt
  | finish
  | spawn (name : Int) (wish : Wish)
  /-- Time goes by. -/
  | pass (duration : Nat)
  /-- A waiter takes a turn. -/
  | turn (number : Nat)
  deriving DecidableEq, Repr

/-- What a happening makes of a lifecycle. -/
def Happening.amend (l : Lifecycle) : Happening → Lifecycle
  | .up => { l with latch := l.latch.up }
  | .down => { l with latch := l.latch.down }
  | .start => l.start?.getD l
  | .stop => l.stop?.getD l
  | .interrupt => l.interrupt?.getD l
  | .clearInterrupt => l.clearInterrupt
  | .finish => l.finish
  | .spawn .. | .pass _ | .turn _ => l

/-- What a happening makes of a watch. -/
def happen (w : Watch) : Happening → Watch
  | .spawn name wish => w.spawn name wish
  | .pass duration => { w with now := w.now + duration }
  | .turn number => w.turn number
  | x => { w with lifecycle := x.amend w.lifecycle }

/-- **A watch after many happenings**, one after the other. -/
def after (w : Watch) (xs : List Happening) : Watch :=
  xs.foldl happen w

/-- The instant at which a waiter takes a turn, and the count that it sees. -/
structure Sight where
  instant : Nat
  count : Nat
  deriving DecidableEq, Repr

/-- **What the waiter of a number sees**, at one turn after the other. -/
def sights (number : Nat) (w : Watch) : List Happening → List Sight
  | [] => []
  | x :: xs =>
    if x = .turn number then
      ⟨w.now, w.lifecycle.latch.count⟩ :: sights number (w.happen x) xs
    else sights number (w.happen x) xs

/-- What the waiter of a number has answered. -/
def answer (w : Watch) (number : Nat) : Option Answer :=
  w.waiters[number]?.bind Waiter.answer

/-! ### What there is to answer -/

/-- When the time of a waiter is up that sees these sights: it runs from the first. -/
def timeUp (timeout : Nat) : List Sight → Nat
  | [] => timeout
  | s :: _ => s.instant + timeout

/-- A sight at which a waiter goes on: something is counted, and its time is not up. -/
def Sight.Bears (deadline : Nat) (s : Sight) : Prop :=
  s.count ≠ 0 ∧ s.instant < deadline

/-- **The first sight that decides**: it is so, and at every turn before it the waiter had to go
on. -/
def Decides (deadline : Nat) (seen : List Sight) (so : Sight → Prop) : Prop :=
  ∃ earlier s later, seen = earlier ++ s :: later ∧ so s ∧ ∀ e ∈ earlier, e.Bears deadline

/-- **A waiter that answers yes** at an instant: it takes a turn then, and nothing is counted. -/
def AnswersYes (timeout : Nat) (seen : List Sight) (instant : Nat) : Prop :=
  Decides (timeUp timeout seen) seen fun s => s.instant = instant ∧ s.count = 0

/-- **A waiter that answers no** at an instant: it takes a turn then, something is counted, and its
time is up. -/
def AnswersNo (timeout : Nat) (seen : List Sight) (instant : Nat) : Prop :=
  Decides (timeUp timeout seen) seen fun s =>
    s.instant = instant ∧ s.count ≠ 0 ∧ timeUp timeout seen ≤ s.instant

/-- **A waiter that goes on waiting**: something was counted at all of its turns, and its time was
up at none. -/
def GoesOn (timeout : Nat) (seen : List Sight) : Prop :=
  ∀ s ∈ seen, s.Bears (timeUp timeout seen)

variable {w : Watch} {number : Nat} {xs : List Happening}

/-! ### Happenings one after the other -/

/-- Happenings that follow others. -/
theorem after_append (w : Watch) (xs ys : List Happening) :
    w.after (xs ++ ys) = (w.after xs).after ys :=
  List.foldl_append

/-- What is seen of happenings that follow others. -/
theorem sights_append (number : Nat) (w : Watch) (xs ys : List Happening) :
    sights number w (xs ++ ys) = sights number w xs ++ sights number (w.after xs) ys := by
  induction xs generalizing w with
  | nil => rfl
  | cons x xs ih =>
    rw [List.cons_append, sights, sights, ih]
    split <;> rfl

/-- Nothing is seen without a turn. -/
theorem sights_eq_nil (h : ∀ x ∈ xs, x ≠ .turn number) : sights number w xs = [] := by
  induction xs generalizing w with
  | nil => rfl
  | cons x xs ih =>
    rw [sights, if_neg (h x List.mem_cons_self)]
    exact ih fun y hy => h y (List.mem_cons_of_mem _ hy)

/-- Time does not go back. -/
theorem now_le_happen (w : Watch) (x : Happening) : w.now ≤ (w.happen x).now := by
  cases x <;> simp [happen, Watch.spawn, Watch.turn]

/-- A waiter sees the instants in their order, and none before the first. -/
theorem le_instant_of_sights (number : Nat) (w : Watch) (xs : List Happening) :
    (sights number w xs).Pairwise (fun s t => s.instant ≤ t.instant) ∧
      ∀ s ∈ sights number w xs, w.now ≤ s.instant := by
  induction xs generalizing w with
  | nil => exact ⟨.nil, by simp [sights]⟩
  | cons x xs ih =>
    obtain ⟨hsorted, hle⟩ := ih (w.happen x)
    have hlater : ∀ s ∈ sights number (w.happen x) xs, w.now ≤ s.instant := fun s hs =>
      Nat.le_trans (now_le_happen w x) (hle s hs)
    rw [sights]
    split
    · refine ⟨List.pairwise_cons.mpr ⟨hlater, hsorted⟩, fun s hs => ?_⟩
      rcases List.mem_cons.mp hs with rfl | hs
      · exact Nat.le_refl _
      · exact hlater s hs
    · exact ⟨hsorted, hlater⟩

end Watch

/-! ### Turns of a waiter -/

namespace Waiter

open Watch (Sight timeUp)

variable {v : Waiter} {timeout deadline : Nat}

/-- A turn of a waiter at which it sees so much. -/
def see (v : Waiter) (s : Sight) : Waiter :=
  v.look s.instant { latch := ⟨s.count⟩ }

/-- A waiter for completion sees the instant and the count, and nothing more. -/
theorem look_eq_see (h : v.wish = .completion timeout) (now : Nat) (l : Lifecycle) :
    v.look now l = v.see ⟨now, l.latch.count⟩ := by
  rw [see, look, look, h]
  rfl

/-- A turn leaves the wish as it is. -/
theorem see_wish (v : Waiter) (s : Sight) : (v.see s).wish = v.wish := by
  rw [see, look]
  split <;> rfl

/-- An answer is final. -/
theorem foldl_see_of_answer (h : v.answer ≠ none) (seen : List Sight) :
    seen.foldl see v = v := by
  induction seen with
  | nil => rfl
  | cons s seen ih =>
    have hsee : v.see s = v := by
      rw [see, look]
      cases ha : v.answer with
      | none => exact absurd ha h
      | some answer => rfl
    rw [List.foldl_cons, hsee, ih]

/-- **The answer to what is seen** up to a deadline. -/
def verdict (deadline : Nat) : List Sight → Option Answer
  | [] => none
  | s :: seen =>
    if s.count = 0 then some ⟨true, s.instant⟩
    else if deadline ≤ s.instant then some ⟨false, s.instant⟩
    else verdict deadline seen

/-- A waiter that has taken a turn and goes on waiting up to a deadline. -/
structure Pending (v : Waiter) (timeout deadline : Nat) : Prop where
  wish : v.wish = .completion timeout
  hasLooked : v.hasLooked = true
  deadline : v.deadline = some deadline
  answer : v.answer = none

/-- What a turn makes of a waiter that goes on waiting. -/
theorem Pending.see_eq (h : v.Pending timeout deadline) (s : Sight) :
    v.see s = { v with answer := verdict deadline [s] } := by
  have hlooked := h.hasLooked
  have hdeadline := h.deadline
  rw [see, look, h.answer]
  simp only [hlooked, if_true, hdeadline, h.wish, isMet, Latch.isOpen, hasCome, verdict, beq_iff_eq,
    decide_eq_true_eq]

/-- What a waiter answers that goes on waiting. -/
theorem Pending.foldl_see_answer (h : v.Pending timeout deadline) (seen : List Sight) :
    (seen.foldl see v).answer = verdict deadline seen := by
  induction seen with
  | nil => exact h.answer
  | cons s seen ih =>
    rw [List.foldl_cons, h.see_eq]
    by_cases hcount : s.count = 0
    · simp only [verdict, if_pos hcount]
      rw [foldl_see_of_answer (by simp)]
    · by_cases hup : deadline ≤ s.instant
      · simp only [verdict, if_neg hcount, if_pos hup]
        rw [foldl_see_of_answer (by simp)]
      · have hsame : { v with answer := none } = v := by rw [← h.answer]
        simp only [verdict, if_neg hcount, if_neg hup]
        rw [hsame, ih]

/-- **The answer of a waiter** that has not taken a turn is decided by what it sees. -/
theorem foldl_see_answer (hwish : v.wish = .completion timeout) (hlooked : v.hasLooked = false)
    (hanswer : v.answer = none) (seen : List Sight) :
    (seen.foldl see v).answer = verdict (timeUp timeout seen) seen := by
  cases seen with
  | nil => exact hanswer
  | cons s seen =>
    -- The first turn only sets the deadline before it looks.
    have hpending : Pending { v with hasLooked := true, deadline := some (s.instant + timeout) }
        timeout (s.instant + timeout) := ⟨hwish, rfl, rfl, hanswer⟩
    have hfirst : v.see s =
        see { v with hasLooked := true, deadline := some (s.instant + timeout) } s := by
      rw [see, see, look, look, hanswer, hlooked, hwish]
      rfl
    rw [List.foldl_cons, hfirst, ← List.foldl_cons, hpending.foldl_see_answer, timeUp]

end Waiter

namespace Watch

variable {w : Watch} {v : Waiter} {number timeout deadline instant : Nat} {x : Happening}
  {xs : List Happening} {seen : List Sight}

/-- A sight decides if it does so at once, or if the waiter goes on and a later one does. -/
theorem decides_cons {so : Sight → Prop} {s : Sight} : Decides deadline (s :: seen) so ↔
    so s ∨ (s.Bears deadline ∧ Decides deadline seen so) := by
  constructor
  · rintro ⟨earlier, s', later, hsplit, hso, hbears⟩
    cases earlier with
    | nil =>
      obtain ⟨rfl, rfl⟩ := List.cons.inj hsplit
      exact .inl hso
    | cons e earlier =>
      obtain ⟨rfl, rfl⟩ := List.cons.inj hsplit
      exact .inr ⟨hbears _ List.mem_cons_self, earlier, s', later, rfl, hso,
        fun e he => hbears e (List.mem_cons_of_mem _ he)⟩
  · rintro (hso | ⟨hs, earlier, s', later, rfl, hso, hbears⟩)
    · exact ⟨[], s, seen, rfl, hso, by simp⟩
    · refine ⟨s :: earlier, s', later, rfl, hso, fun e he => ?_⟩
      rcases List.mem_cons.mp he with rfl | he
      · exact hs
      · exact hbears e he

/-- Nothing decides if nothing is seen. -/
theorem not_decides_nil {so : Sight → Prop} : ¬ Decides deadline [] so := by
  rintro ⟨earlier, s, later, hsplit, -⟩
  simp at hsplit

/-- The answer is what the first sight that decides is of: an open latch, or a deadline that has
come before it opened. -/
theorem verdict_eq_some {found : Bool} : Waiter.verdict deadline seen = some ⟨found, instant⟩ ↔
    Decides deadline seen fun s => s.instant = instant ∧
      if found then s.count = 0 else s.count ≠ 0 ∧ deadline ≤ s.instant := by
  induction seen with
  | nil => exact iff_of_false (by rintro ⟨⟩) not_decides_nil
  | cons s seen ih =>
    rw [decides_cons, ← ih, Waiter.verdict, Sight.Bears]
    by_cases hcount : s.count = 0
    · cases found <;> simp [hcount]
    · by_cases hup : deadline ≤ s.instant
      · cases found <;> simp [hcount, hup, Nat.not_lt.mpr hup]
      · cases found <;> simp [hcount, hup, Nat.lt_of_not_le hup]

/-- There is no answer as long as the waiter has to go on. -/
theorem verdict_eq_none : Waiter.verdict deadline seen = none ↔ ∀ s ∈ seen, s.Bears deadline := by
  induction seen with
  | nil => simp [Waiter.verdict]
  | cons s seen ih =>
    rw [List.forall_mem_cons, ← ih, Waiter.verdict, Sight.Bears]
    by_cases hcount : s.count = 0
    · simp [hcount]
    · by_cases hup : deadline ≤ s.instant
      · simp [hcount, hup, Nat.not_lt.mpr hup]
      · simp [hcount, hup, Nat.lt_of_not_le hup]

/-! ### A host that waits -/

/-- **The waits of a host are such happenings**: while it settles or waits, waiters take turns and
time goes by. -/
theorem exists_after_timeline (t : Timeline Watch Nat) :
    (∃ xs, (t.settle machine).state = t.state.after xs) ∧
    ∀ done deadline, ∃ xs, (t.waitUntil machine done deadline).2.state = t.state.after xs := by
  have hturn : ∀ (number : Nat) (s : Watch), (∃ xs, s = t.state.after xs) →
      ∃ xs, machine.turn number s = t.state.after xs := by
    rintro number s ⟨xs, rfl⟩
    exact ⟨xs ++ [.turn number], by rw [after_append]; rfl⟩
  have hpass : ∀ (instant : Nat) (s : Watch), machine.now s ≤ instant →
      (∃ xs, s = t.state.after xs) → ∃ xs, machine.moveTo instant s = t.state.after xs := by
    rintro instant s hle ⟨xs, rfl⟩
    have hnow : (t.state.after xs).now + (instant - (t.state.after xs).now) = instant :=
      Nat.add_sub_cancel' hle
    refine ⟨xs ++ [.pass (instant - (t.state.after xs).now)], ?_⟩
    rw [after_append]
    change _ = { t.state.after xs with
      now := (t.state.after xs).now + (instant - (t.state.after xs).now) }
    rw [hnow]
    rfl
  have hstart : ∃ xs, t.state = t.state.after xs := ⟨[], rfl⟩
  exact ⟨Timeline.takeTurns_induction hturn hstart _,
    fun done deadline => Timeline.waitUntil_induction (fun _ _ => rfl) (fun _ _ => rfl) hturn hpass
      done deadline hstart⟩

/-! ### A waiter among others -/

/-- **A waiter changes at its own turns** and at nothing else that happens. -/
theorem getElem?_happen (hv : w.waiters[number]? = some v) (hwish : v.wish = .completion timeout)
    (x : Happening) : (w.happen x).waiters[number]? =
      some (if x = .turn number then v.see ⟨w.now, w.lifecycle.latch.count⟩ else v) := by
  cases x with
  | spawn name wish =>
    have hlt := (List.getElem?_eq_some_iff.mp hv).1
    rw [if_neg (by simp), happen, Watch.spawn, List.getElem?_append_left hlt, hv]
  | turn n =>
    rw [happen, Watch.turn, List.getElem?_modify, hv, Option.map_eq_map, Option.map_some]
    by_cases hn : n = number
    · rw [if_pos hn, if_pos (congrArg Happening.turn hn), v.look_eq_see hwish]
    · rw [if_neg hn, if_neg fun h => hn (Happening.turn.inj h)]
  | up | down | start | stop | interrupt | clearInterrupt | finish | pass =>
    rw [if_neg (by simp)]
    exact hv

/-- What becomes of a waiter is decided by what it sees. -/
theorem getElem?_after (hv : w.waiters[number]? = some v) (hwish : v.wish = .completion timeout)
    (xs : List Happening) :
    (w.after xs).waiters[number]? = some ((sights number w xs).foldl Waiter.see v) := by
  induction xs generalizing w v with
  | nil => exact hv
  | cons x xs ih =>
    have hx := getElem?_happen hv hwish x
    rw [sights]
    split
    · rename_i hturn
      rw [if_pos hturn] at hx
      exact ih hx (by rw [Waiter.see_wish, hwish])
    · rename_i hturn
      rw [if_neg hturn] at hx
      exact ih hx hwish

/-- **The answer of a waiter** is the verdict on what it sees. -/
theorem answer_after (w : Watch) (name : Int) (timeout : Nat) (xs : List Happening) :
    let w' := w.spawn name (.completion timeout)
    let seen := sights w.waiters.length w' xs
    (w'.after xs).answer w.waiters.length = Waiter.verdict (timeUp timeout seen) seen := by
  intro w' seen
  have hv : w'.waiters[w.waiters.length]? =
      some { name, wish := .completion timeout, since := w.now } := by
    simp [w', Watch.spawn]
  rw [answer, getElem?_after hv rfl, Option.bind_some]
  exact Waiter.foldl_see_answer rfl rfl rfl seen

/-! ### Restarts -/

/-- What is granted to a run that starts: the latch counts one more. -/
theorem count_start (h : w.lifecycle.state = .stopped) :
    (w.happen .start).lifecycle.latch.count = w.lifecycle.latch.count + 1 := by
  simp [happen, Happening.amend, Lifecycle.start?, h, Latch.up]

/-- **What a happening does to the count**: it falls at the end of a run and rises at the start of
one, and stays at all else. -/
theorem count_happen (w : Watch) (x : Happening) :
    let count := w.lifecycle.latch.count
    let count' := (w.happen x).lifecycle.latch.count
    count' = count ∨ (x = .start ∨ x = .up) ∧ count' = count + 1 ∨
      (x = .finish ∨ x = .down) ∧ count' = count - 1 := by
  cases x with
  | up | down | finish | clearInterrupt | spawn | pass | turn =>
    simp [happen, Happening.amend, Latch.up, Latch.down, Lifecycle.finish,
      Lifecycle.clearInterrupt, Watch.spawn, Watch.turn]
  | start | stop =>
    simp only [happen, Happening.amend, Lifecycle.start?, Lifecycle.stop?]
    split <;> simp [Latch.up]
  | interrupt =>
    simp only [happen, Happening.amend, Lifecycle.interrupt?]
    split <;> simp

/-- The count falls at the end of a run only. -/
theorem count_le_happen (h : x ≠ .finish ∧ x ≠ .down) :
    w.lifecycle.latch.count ≤ (w.happen x).lifecycle.latch.count := by
  obtain hsame | ⟨-, hmore⟩ | ⟨hends, -⟩ := count_happen w x
  · omega
  · omega
  · exact absurd hends (not_or.mpr h)

/-- The count rises at the start of a run only. -/
theorem count_happen_le (h : x ≠ .start ∧ x ≠ .up) :
    (w.happen x).lifecycle.latch.count ≤ w.lifecycle.latch.count := by
  obtain hsame | ⟨hbegins, -⟩ | ⟨-, hless⟩ := count_happen w x
  · omega
  · exact absurd hbegins (not_or.mpr h)
  · omega

/-- A run that is over stays so until another starts. -/
theorem state_happen (hstopped : w.lifecycle.state = .stopped) (h : x ≠ .start) :
    (w.happen x).lifecycle.state = .stopped := by
  cases x with
  | start => exact absurd rfl h
  | finish => rfl
  | up | down | clearInterrupt | spawn | pass | turn => exact hstopped
  | stop => simp [happen, Happening.amend, Lifecycle.stop?, hstopped]
  | interrupt =>
    simp only [happen, Happening.amend, Lifecycle.interrupt?]
    split <;> exact hstopped

/-- After a run nothing runs until another starts. -/
theorem state_after (hstopped : w.lifecycle.state = .stopped) (h : ∀ x ∈ xs, x ≠ .start) :
    (w.after xs).lifecycle.state = .stopped := by
  induction xs generalizing w with
  | nil => exact hstopped
  | cons x xs ih =>
    exact ih (state_happen hstopped (h x List.mem_cons_self))
      fun y hy => h y (List.mem_cons_of_mem _ hy)

/-- What is counted stays so if nothing starts. -/
theorem count_after_le (h : ∀ x ∈ xs, x ≠ .start ∧ x ≠ .up) :
    (w.after xs).lifecycle.latch.count ≤ w.lifecycle.latch.count := by
  induction xs generalizing w with
  | nil => exact Nat.le_refl _
  | cons x xs ih =>
    exact Nat.le_trans (ih fun y hy => h y (List.mem_cons_of_mem _ hy))
      (count_happen_le (h x List.mem_cons_self))

/-- **While a run goes on** every sight is of something counted. -/
theorem count_ne_zero_of_sights (hpos : 0 < w.lifecycle.latch.count)
    (h : ∀ x ∈ xs, x ≠ .finish ∧ x ≠ .down) : ∀ s ∈ sights number w xs, s.count ≠ 0 := by
  induction xs generalizing w with
  | nil => simp [sights]
  | cons x xs ih =>
    have hrest := ih (Nat.lt_of_lt_of_le hpos (count_le_happen (h x List.mem_cons_self)))
      fun y hy => h y (List.mem_cons_of_mem _ hy)
    rw [sights]
    split
    · exact List.forall_mem_cons.mpr ⟨Nat.ne_of_gt hpos, hrest⟩
    · exact hrest

/-- The deadline is set by what is seen first. -/
theorem timeUp_append {seen : List Sight} (h : seen ≠ []) (more : List Sight) :
    timeUp timeout (seen ++ more) = timeUp timeout seen := by
  cases seen with
  | nil => exact absurd rfl h
  | cons s seen => rfl

/-- A waiter that saw an open latch at no turn does not answer yes. -/
theorem verdict_ne_yes (h : ∀ s ∈ seen, s.count ≠ 0) :
    Waiter.verdict deadline seen ≠ some ⟨true, instant⟩ := by
  intro hyes
  obtain ⟨earlier, s, later, rfl, ⟨-, hcount⟩, -⟩ := verdict_eq_some.mp hyes
  exact h s (by simp) hcount

/-- A waiter that went on until it sees an open latch answers yes. -/
theorem verdict_of_goesOn (h : GoesOn timeout seen) (more : List Sight) :
    Waiter.verdict (timeUp timeout (seen ++ ⟨instant, 0⟩ :: more)) (seen ++ ⟨instant, 0⟩ :: more) =
      some ⟨true, instant⟩ := by
  refine verdict_eq_some.mpr ⟨seen, _, more, rfl, ⟨rfl, rfl⟩, fun s hs => ?_⟩
  rw [timeUp_append (List.ne_nil_of_mem hs)]
  exact h s hs

/-- What a waiter sees of a run that ends, and of what follows it without a turn or a start. -/
theorem sights_finish (w : Watch) {before during later : List Happening}
    (h : ∀ x ∈ during, x ≠ .turn number) :
    sights number w (before ++ .finish :: during ++ later) = sights number w before ++
      sights number (w.after (before ++ .finish :: during)) later := by
  have hquiet : ∀ x ∈ .finish :: during, x ≠ .turn number :=
    List.forall_mem_cons.mpr ⟨by simp, h⟩
  rw [sights_append, sights_append, sights_eq_nil hquiet, List.append_nil]

/-- **Waiters answer truthfully.** A waiter answers yes at an instant exactly if it takes a turn
then, nothing is counted, and at every turn before it something was and its time was not up; it
answers no exactly if it takes a turn then, something is counted, its time is up, and at every turn
before it something was counted and its time was not up; it is still waiting exactly if this was so
at all its turns. Its turns come in the order of their instants, and its time runs from the first,
so it answers no after no less than its timeout. A run that starts before it has taken a turn hides
the end of the run before from it, whatever else happens; if it takes a turn in between, it answers
yes at once. -/
theorem answers_truthfully (w : Watch) (name : Int) (timeout : Nat) :
    let w' := w.spawn name (.completion timeout)
    let number := w.waiters.length
    (∀ xs instant, (w'.after xs).answer number = some ⟨true, instant⟩ ↔
      AnswersYes timeout (sights number w' xs) instant) ∧
    (∀ xs instant, (w'.after xs).answer number = some ⟨false, instant⟩ ↔
      AnswersNo timeout (sights number w' xs) instant) ∧
    (∀ xs, (w'.after xs).answer number = none ↔ GoesOn timeout (sights number w' xs)) ∧
    (∀ xs, (sights number w' xs).Pairwise fun s t => s.instant ≤ t.instant) ∧
    (∀ xs instant, (w'.after xs).answer number = some ⟨false, instant⟩ →
      w.now + timeout ≤ instant) ∧
    (∀ before during later, (w'.after before).answer number = none →
      (∀ x ∈ during, x ≠ .turn number ∧ x ≠ .start) → (∀ x ∈ later, x ≠ .finish ∧ x ≠ .down) →
      ∀ instant, (w'.after (before ++ .finish :: during ++ .start :: later)).answer number ≠
        some ⟨true, instant⟩) ∧
    (∀ before during later, (w'.after before).answer number = none →
      (w'.after before).lifecycle.latch.count ≤ 1 →
      (∀ x ∈ during, x ≠ .turn number ∧ x ≠ .start ∧ x ≠ .up) →
      (w'.after (before ++ .finish :: during ++ .turn number :: later)).answer number =
        some ⟨true, (w'.after (before ++ .finish :: during)).now⟩) := by
  intro w' number
  have hanswer : ∀ xs, (w'.after xs).answer number =
      Waiter.verdict (timeUp timeout (sights number w' xs)) (sights number w' xs) :=
    answer_after w name timeout
  have hnone : ∀ xs, (w'.after xs).answer number = none ↔ GoesOn timeout (sights number w' xs) :=
    fun xs => by rw [hanswer, verdict_eq_none, GoesOn]
  have hno : ∀ xs instant, (w'.after xs).answer number = some ⟨false, instant⟩ ↔
      AnswersNo timeout (sights number w' xs) instant :=
    fun xs instant => by simp [hanswer, verdict_eq_some, AnswersNo]
  refine ⟨fun xs instant => by simp [hanswer, verdict_eq_some, AnswersYes], hno, hnone,
    fun xs => (le_instant_of_sights number w' xs).1, fun xs instant h => ?_,
    fun before during later hwaits hduring hlater instant => ?_,
    fun before during later hwaits hone hduring => ?_⟩
  · obtain ⟨earlier, s, later, hsplit, ⟨rfl, -, hup⟩, -⟩ := (hno xs instant).mp h
    refine Nat.le_trans ?_ hup
    obtain ⟨-, hle⟩ := le_instant_of_sights number w' xs
    cases hseen : sights number w' xs with
    | nil => simp [hseen] at hsplit
    | cons first rest =>
      exact Nat.add_le_add_right (hle first (by simp [hseen])) timeout
  · rw [hanswer, sights_finish w' fun x hx => (hduring x hx).1, sights, if_neg (by simp)]
    refine verdict_ne_yes fun s hs => ?_
    rcases List.mem_append.mp hs with hs | hs
    · exact ((hnone before).mp hwaits s hs).1
    · -- The next run has counted the latch up before the waiter takes a turn.
      have hstopped : (w'.after (before ++ .finish :: during)).lifecycle.state = .stopped := by
        rw [after_append]
        exact state_after (w := (w'.after before).happen .finish) rfl fun x hx => (hduring x hx).2
      exact count_ne_zero_of_sights (by rw [count_start hstopped]; omega) hlater s hs
  · have hopen : (w'.after (before ++ .finish :: during)).lifecycle.latch.count = 0 := by
      have hfinish : ((w'.after before).happen .finish).lifecycle.latch.count = 0 :=
        Nat.sub_eq_zero_of_le hone
      have hle := count_after_le (w := (w'.after before).happen .finish)
        fun x hx => (hduring x hx).2
      rw [after_append]
      exact Nat.le_zero.mp (hfinish ▸ hle)
    rw [hanswer, sights_finish w' fun x hx => (hduring x hx).1, sights, if_pos rfl, hopen]
    exact verdict_of_goesOn ((hnone before).mp hwaits) _

/-- A waiter that takes a turn while a run goes on: the next run hides the end of it if it starts
first, and the waiter answers yes if its turn comes first. -/
theorem answers_truthfully_across_restart :
    let w := ({} : Watch).after [.start]
    let w' := w.spawn 7 (.completion 50)
    (∀ instant, (w'.after ([.turn 0] ++ .finish :: [.pass 10] ++
      .start :: [.turn 0, .pass 60, .turn 0])).answer 0 ≠ some ⟨true, instant⟩) ∧
    (w'.after ([.turn 0] ++ .finish :: [.pass 10] ++ .turn 0 :: [.start])).answer 0 =
      some ⟨true, 10⟩ := by
  intro w w'
  obtain ⟨-, -, -, -, -, hhidden, hseen⟩ := answers_truthfully w 7 50
  exact ⟨hhidden [.turn 0] [.pass 10] [.turn 0, .pass 60, .turn 0] (by decide) (by decide)
      (by decide),
    hseen [.turn 0] [.pass 10] [.start] (by decide) (by decide) (by decide)⟩

end Watch

end ChangeCapture
