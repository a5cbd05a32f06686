/-!
# Commit policies

A policy decides when accumulated positions are flushed. It is asked with two numbers: the records
delivered since the last confirmed flush and the nanoseconds since then. It keeps no count of its
own.

## Main definitions

* `Policy`, `Policy.fires`: the policies and their decision.
* `Policy.probes`: which probes a decision consults, in order.
* `Policy.BuiltIn`: the policies made of the built-in ones alone.
-/

namespace ChangeCapture

/-- When accumulated positions are flushed. -/
inductive Policy where
  /-- After every batch with records. -/
  | always
  /-- Once records are pending and an interval, in nanoseconds, has passed. -/
  | periodic (interval : Nat)
  /-- Once so many records are pending; at least one is needed. -/
  | every (records : Nat)
  /-- When one of two says so. The second is asked only if the first declines. -/
  | either (first second : Policy)
  /-- When both say so. The second is asked only if the first agrees. -/
  | both (first second : Policy)
  /-- A decision of the host's own. -/
  | custom (decide : Nat → Nat → Bool)
  /-- Decides as another policy and reports each decision under a name. -/
  | probe (name : String) (inner : Policy)

/-- Without a choice, positions are flushed after every batch. -/
instance : Inhabited Policy := ⟨.always⟩

namespace Policy

/-- **The decision of a policy** on the pending records and the time since the last confirmed
flush. -/
def fires : Policy → (records elapsed : Nat) → Bool
  | always, records, _ => 0 < records
  | periodic interval, records, elapsed => 0 < records && interval ≤ elapsed
  | every n, records, _ => max n 1 ≤ records
  | either a b, records, elapsed => a.fires records elapsed || b.fires records elapsed
  | both a b, records, elapsed => a.fires records elapsed && b.fires records elapsed
  | custom decide, records, elapsed => decide records elapsed
  | probe _ inner, records, elapsed => inner.fires records elapsed

/-- The probes that a decision consults, in order, each with its own decision. -/
def probes : Policy → (records elapsed : Nat) → List (String × Bool)
  | either a b, records, elapsed =>
    a.probes records elapsed ++
      if a.fires records elapsed then [] else b.probes records elapsed
  | both a b, records, elapsed =>
    a.probes records elapsed ++
      if a.fires records elapsed then b.probes records elapsed else []
  | probe name inner, records, elapsed =>
    inner.probes records elapsed ++ [(name, inner.fires records elapsed)]
  | _, _, _ => []

/-- Always the same answer. -/
def const (answer : Bool) : Policy :=
  custom fun _ _ => answer

/-- Whenever the pending records are a multiple of a number. -/
def multiple (n : Nat) : Policy :=
  custom fun records _ => records % n == 0

/-- **The policies made of the built-in ones**, in any combination. -/
def BuiltIn : Policy → Prop
  | always | periodic _ | every _ => True
  | either a b | both a b => a.BuiltIn ∧ b.BuiltIn
  | custom _ | probe _ _ => False

end Policy

end ChangeCapture
