import ChangeCapture.Schedule
import Mathlib.Order.Basic

/-!
# What a schedule leads through

A schedule changes the state of a machine by turns and by moving the clock ahead, and by nothing
else. So what turns and later instants keep, every wait keeps.

## Main results

* `Timeline.le_nextInstant`: the clock never jumps back.
* `Timeline.waitUntil_induction`: the induction principle of a wait.
-/

namespace ChangeCapture

namespace Timeline

variable {σ τ : Type} {m : Machine σ τ}

/-- The next instant at which something happens is not before now. -/
theorem le_nextInstant {deadline : Nat} {s : σ} (h : m.now s ≤ deadline) :
    m.now s ≤ nextInstant m deadline s := by
  rw [nextInstant]
  generalize (m.tasks s).filterMap (m.due? s) = instants
  induction instants generalizing deadline with
  | nil => exact h
  | cons due instants ih =>
    rw [List.foldl_cons]
    refine ih ?_
    split
    · rename_i hdue
      simp only [Bool.and_eq_true, decide_eq_true_eq] at hdue
      exact Nat.le_of_lt hdue.1
    · exact h

/-- The next instant at which something happens is not after the deadline. -/
theorem nextInstant_le (deadline : Nat) (s : σ) : nextInstant m deadline s ≤ deadline := by
  rw [nextInstant]
  generalize (m.tasks s).filterMap (m.due? s) = instants
  induction instants generalizing deadline with
  | nil => exact Nat.le_refl deadline
  | cons due instants ih =>
    rw [List.foldl_cons]
    refine Nat.le_trans (ih _) ?_
    split
    · rename_i hdue
      simp only [Bool.and_eq_true, decide_eq_true_eq] at hdue
      exact Nat.le_of_lt hdue.2
    · exact Nat.le_refl deadline

section Induction

variable [DecidableEq τ] {P : σ → Prop}

/-- What every turn keeps, turns keep until everybody is blocked. -/
theorem takeTurns_induction (turn : ∀ task s, P s → P (m.turn task s)) {t : Timeline σ τ}
    (h : P t.state) (fuel : Nat) : P (takeTurns m fuel t).state := by
  induction fuel generalizing t with
  | zero => exact h
  | succ fuel ih =>
    rw [takeTurns]
    cases hq : t.queue with
    | nil => simpa [next?, hq] using h
    | cons task queue =>
      simp only [next?, hq]
      exact ih (turn task t.state h)

variable (clock : ∀ task s, m.now (m.turn task s) = m.now s)
  (moved : ∀ instant s, m.now (m.moveTo instant s) = instant)

include clock moved

/-- **The induction principle of a wait**: what turns and later instants keep, a wait keeps. -/
theorem waitUntil_induction (turn : ∀ task s, P s → P (m.turn task s))
    (pass : ∀ instant s, m.now s ≤ instant → P s → P (m.moveTo instant s)) (done : σ → Bool)
    (deadline : Nat) {t : Timeline σ τ} (h : P t.state) :
    P (waitUntil m done deadline t).2.state := by
  have loop : ∀ (fuel : Nat) (t : Timeline σ τ), P t.state → m.now t.state ≤ deadline →
      P (waitLoop m done deadline fuel t).2.state := by
    intro fuel
    induction fuel with
    | zero => exact fun t h _ => h
    | succ fuel ih =>
      intro t h hnow
      -- Turns leave the clock where it is.
      have hsettled : P (settle m t).state ∧ m.now (settle m t).state = m.now t.state :=
        takeTurns_induction (P := fun s => P s ∧ m.now s = m.now t.state)
          (fun task s hs => ⟨turn task s hs.1, (clock task s).trans hs.2⟩) ⟨h, rfl⟩ _
      have hle : m.now (settle m t).state ≤ deadline := hsettled.2 ▸ hnow
      have hjump := pass _ _ (le_nextInstant hle) hsettled.1
      rw [waitLoop]
      split
      · exact hsettled.1
      · dsimp only
        split
        · exact hjump
        · exact ih _ hjump ((moved _ _).trans_le (nextInstant_le _ _))
  rw [waitUntil]
  split
  · exact h
  · split
    · exact h
    · exact loop _ t h (by omega)

end Induction

end Timeline

end ChangeCapture
