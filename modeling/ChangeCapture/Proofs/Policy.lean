import ChangeCapture.Policy

/-!
# Built-in policies

A built-in policy that agrees goes on to agree as records and time grow, however it is combined of
others. It never agrees without a record, and it agrees at last. It has no probes.

A policy that waits for an interval hands this on to what it is combined to: to `both` from either
side, to `either` only if the other one waits as well.

## Main definitions

* `Policy.Spaced`: a policy that does not agree before an interval has passed.

## Main results

* `Policy.BuiltIn.fires_of_le` — what a built-in policy has agreed to it agrees to later.
* `Policy.BuiltIn.idle_and_monotone` — it declines without records, and it is monotone.
* `Policy.Spaced.le_of_fires` — a policy that waits agrees only once the interval has passed.
-/

namespace ChangeCapture

namespace Policy.BuiltIn

variable {p : Policy}

/-- **What a built-in policy has agreed to it agrees to later**, with as many records at least and
no less time since the last commit. -/
theorem fires_of_le (hp : p.BuiltIn) {records records' elapsed elapsed' : Nat}
    (hr : records ≤ records') (he : elapsed ≤ elapsed') (h : p.fires records elapsed = true) :
    p.fires records' elapsed' = true := by
  induction p with
  | always =>
    have hpos : 0 < records := by simpa [fires] using h
    simpa [fires] using Nat.lt_of_lt_of_le hpos hr
  | periodic interval =>
    obtain ⟨hpos, hlong⟩ : 0 < records ∧ interval ≤ elapsed := by simpa [fires] using h
    simpa [fires] using And.intro (Nat.lt_of_lt_of_le hpos hr) (Nat.le_trans hlong he)
  | every n =>
    have hmany : max n 1 ≤ records := by simpa [fires] using h
    simpa [fires] using Nat.le_trans hmany hr
  | either first second ih₁ ih₂ =>
    rw [fires, Bool.or_eq_true] at h ⊢
    exact h.imp (ih₁ hp.1) (ih₂ hp.2)
  | both first second ih₁ ih₂ =>
    rw [fires, Bool.and_eq_true] at h ⊢
    exact h.imp (ih₁ hp.1) (ih₂ hp.2)
  | custom | probe => exact hp.elim

/-- **A built-in policy never agrees without a record.** -/
theorem fires_zero (hp : p.BuiltIn) (elapsed : Nat) : p.fires 0 elapsed = false := by
  induction p with
  | always | periodic => rfl
  | every n =>
    -- At least one record is needed, also by a policy that asks for none.
    simp [fires]
  | either first second ih₁ ih₂ => rw [fires, ih₁ hp.1, ih₂ hp.2, Bool.or_false]
  | both first second ih₁ ih₂ => rw [fires, ih₁ hp.1, Bool.false_and]
  | custom | probe => exact hp.elim

/-- A built-in policy agrees to enough records after enough time. -/
theorem exists_fires (hp : p.BuiltIn) : ∃ records elapsed, p.fires records elapsed = true := by
  induction p with
  | always => exact ⟨1, 0, rfl⟩
  | periodic interval => exact ⟨1, interval, by simp [fires]⟩
  | every n => exact ⟨max n 1, 0, by simp [fires]⟩
  | either first second ih₁ =>
    obtain ⟨records, elapsed, h⟩ := ih₁ hp.1
    exact ⟨records, elapsed, by rw [fires, h, Bool.true_or]⟩
  | both first second ih₁ ih₂ =>
    obtain ⟨records₁, elapsed₁, h₁⟩ := ih₁ hp.1
    obtain ⟨records₂, elapsed₂, h₂⟩ := ih₂ hp.2
    refine ⟨max records₁ records₂, max elapsed₁ elapsed₂, ?_⟩
    rw [fires, hp.1.fires_of_le (Nat.le_max_left ..) (Nat.le_max_left ..) h₁,
      hp.2.fires_of_le (Nat.le_max_right ..) (Nat.le_max_right ..) h₂, Bool.true_and]
  | custom | probe => exact hp.elim

/-- **Built-in policies ignore empty counters and are monotone**, however they are combined and
whatever their numbers are: without a record they decline at any time, and what they have agreed to
they agree to with more records and more time. There is always something that they agree to. -/
theorem idle_and_monotone (hp : p.BuiltIn) :
    (∀ elapsed, p.fires 0 elapsed = false) ∧
    (∀ records records' elapsed elapsed', records ≤ records' → elapsed ≤ elapsed' →
      p.fires records elapsed = true → p.fires records' elapsed' = true) ∧
    ∃ records elapsed, p.fires records elapsed = true :=
  ⟨hp.fires_zero, fun _ _ _ _ => hp.fires_of_le, hp.exists_fires⟩

/-- A policy that asks for no record and no time, and one that waits for many records or for an
interval, agree together. -/
theorem idle_and_monotone_combined :
    let p : Policy := .both (.either (.every 0) (.periodic 0)) (.either (.every 100) (.periodic 5))
    p.BuiltIn ∧ (∀ elapsed, p.fires 0 elapsed = false) ∧
      (∀ records elapsed, 3 ≤ records → 7 ≤ elapsed → p.fires records elapsed = true) := by
  intro p
  have hp : p.BuiltIn := ⟨⟨trivial, trivial⟩, trivial, trivial⟩
  obtain ⟨hidle, hsteady, -⟩ := hp.idle_and_monotone
  have hfires : p.fires 3 7 = true := by decide
  exact ⟨hp, hidle, fun records elapsed hr he => hsteady 3 records 7 elapsed hr he hfires⟩

/-- A built-in policy has no probes. -/
theorem probes_eq_nil (hp : p.BuiltIn) (records elapsed : Nat) : p.probes records elapsed = [] := by
  induction p with
  | either first second ih₁ ih₂ | both first second ih₁ ih₂ =>
    rw [probes, ih₁ hp.1, ih₂ hp.2, ite_self]
    rfl
  | custom | probe => exact hp.elim
  | _ => rfl

end Policy.BuiltIn

namespace Policy

/-- **The policies that wait for an interval**: a periodic one, and what is combined of it so that
nothing is agreed to without it. -/
def Spaced (interval : Nat) : Policy → Prop
  | periodic own => interval ≤ own
  | either a b => a.Spaced interval ∧ b.Spaced interval
  | both a b => a.Spaced interval ∨ b.Spaced interval
  | probe _ inner => inner.Spaced interval
  | always | every _ | custom _ => False

/-- **A policy that waits for an interval agrees only once it has passed.** -/
theorem Spaced.le_of_fires {p : Policy} {interval records elapsed : Nat} (hp : p.Spaced interval)
    (h : p.fires records elapsed = true) : interval ≤ elapsed := by
  induction p with
  | periodic own =>
    obtain ⟨-, hlong⟩ : 0 < records ∧ own ≤ elapsed := by simpa [fires] using h
    exact Nat.le_trans hp hlong
  | either first second ih₁ ih₂ =>
    rw [fires, Bool.or_eq_true] at h
    exact h.elim (ih₁ hp.1) (ih₂ hp.2)
  | both first second ih₁ ih₂ =>
    rw [fires, Bool.and_eq_true] at h
    exact hp.elim (ih₁ · h.1) (ih₂ · h.2)
  | probe name inner ih => exact ih hp h
  | always | every | custom => exact hp.elim

end Policy

end ChangeCapture
