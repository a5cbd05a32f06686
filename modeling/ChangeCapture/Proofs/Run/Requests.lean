import ChangeCapture.Proofs.Run.Moves

/-!
# What a lifecycle is asked

A stop is granted while a run is active and was not asked to stop before; an interrupt is granted
while a run is active. Neither takes the run its place, and a run that was granted one of them
enters no further poll. A consumer asks its own run the same, several times in a row if it likes.

## Main definitions

* `Lifecycle.grants`, `Lifecycle.heed`: whether a request is granted, and what it leaves.
* `Lifecycle.heedAll`, `Lifecycle.replies`: several requests in a row.
* `Lifecycle.isHalting`: whether no further poll is entered.

## Main results

* `Lifecycle.stopsGranted_replies` — of several stops at most one is granted.
* `Host.ask_eq`, `Host.foldl_control_eq` — requests of hosts are requests of their lifecycles.
-/

namespace ChangeCapture

/-! ### Grants in a history -/

/-- Whether a consumer was granted a stop. -/
def Event.isStopGranted : Event → Bool
  | .controlled .stop true => true
  | _ => false

/-- How many stops consumers were granted. -/
def stopsGranted (es : List Event) : Nat :=
  es.countP Event.isStopGranted

/-- The stops granted in an event and others. -/
theorem stopsGranted_cons (e : Event) (es : List Event) :
    stopsGranted (e :: es) = stopsGranted es + e.isStopGranted.toNat := by
  rw [stopsGranted, List.countP_cons, ← stopsGranted]
  cases e.isStopGranted <;> rfl

/-- The stops granted in two lists of events. -/
theorem stopsGranted_append (es es' : List Event) :
    stopsGranted (es ++ es') = stopsGranted es + stopsGranted es' :=
  List.countP_append

/-- The order of events makes no difference to the stops that they grant. -/
theorem stopsGranted_reverse (es : List Event) : stopsGranted es.reverse = stopsGranted es :=
  List.countP_reverse

namespace Lifecycle

variable {l : Lifecycle} {c : Control}

/-! ### One request -/

/-- What a lifecycle is asked; none if it refuses. -/
def ask? (c : Control) (l : Lifecycle) : Option Lifecycle :=
  match c with
  | .stop => l.stop?
  | .interrupt => l.interrupt?

/-- Whether a request is granted. -/
def grants (c : Control) (l : Lifecycle) : Bool :=
  (l.ask? c).isSome

/-- What a request leaves. A request that is refused changes nothing. -/
def heed (c : Control) (l : Lifecycle) : Lifecycle :=
  (l.ask? c).getD l

/-- Whether a run enters no further poll: it was asked to stop, or to give up. -/
def isHalting (l : Lifecycle) : Bool :=
  !l.isRunning || l.interrupted

/-- A stop is granted exactly to a run that was not asked to stop before. -/
theorem grants_stop (l : Lifecycle) : l.grants .stop = l.isRunning := by
  rw [grants, ask?, stop?, isRunning]
  cases l.state <;> rfl

/-- An interrupt is granted exactly while the latch counts a run. -/
theorem grants_interrupt (l : Lifecycle) : l.grants .interrupt = !l.latch.isOpen := by
  rw [grants, ask?, interrupt?]
  cases l.latch.isOpen <;> rfl

/-- A request that is refused changes nothing. -/
theorem heed_of_not_grants (h : l.grants c = false) : l.heed c = l := by
  rw [grants, Option.isSome_eq_false_iff, Option.isNone_iff_eq_none] at h
  rw [heed, h]
  rfl

/-- What a stop leaves. -/
theorem heed_stop (l : Lifecycle) :
    l.heed .stop = if l.isRunning then { l with state := .stopping } else l := by
  rw [heed, ask?, stop?, isRunning]
  cases l.state <;> rfl

/-- What an interrupt leaves. -/
theorem heed_interrupt (l : Lifecycle) :
    l.heed .interrupt = if l.latch.isOpen then l else { l with interrupted := true } := by
  rw [heed, ask?, interrupt?]
  cases l.latch.isOpen <;> rfl

/-- A request leaves the latch alone. -/
theorem latch_heed (c : Control) (l : Lifecycle) : (l.heed c).latch = l.latch := by
  cases c with
  | stop =>
    rw [heed_stop]
    split <;> rfl
  | interrupt =>
    rw [heed_interrupt]
    split <;> rfl

/-- A request leaves a run its place. -/
theorem isTaken_heed (c : Control) (l : Lifecycle) : (l.heed c).isTaken = l.isTaken := by
  cases c with
  | stop =>
    rw [heed_stop]
    split
    · rename_i hr
      have hs : l.state = .running := by simpa [isRunning] using hr
      simp [isTaken, hs]
    · rfl
  | interrupt =>
    rw [heed_interrupt]
    split <;> rfl

/-- A granted interrupt raises the flag, and nothing lowers it. -/
theorem interrupted_heed (c : Control) (l : Lifecycle) :
    (l.heed c).interrupted = true ↔
      l.interrupted = true ∨ c = .interrupt ∧ l.grants .interrupt = true := by
  cases c with
  | stop =>
    rw [heed_stop]
    split <;> simp
  | interrupt =>
    rw [heed_interrupt, grants_interrupt]
    cases l.latch.isOpen <;> simp

/-- After a stop a run is not running any more. -/
theorem isRunning_heed_stop (l : Lifecycle) : (l.heed .stop).isRunning = false := by
  rw [heed_stop]
  cases hr : l.isRunning
  · exact hr
  · rfl

/-- After an interrupt a run is running if it was before. -/
theorem isRunning_heed_interrupt (l : Lifecycle) :
    (l.heed .interrupt).isRunning = l.isRunning := by
  rw [heed_interrupt]
  split <;> rfl

/-- A run that enters no further poll enters none after a request. -/
theorem isHalting_heed (h : l.isHalting = true) (c : Control) : (l.heed c).isHalting = true := by
  rw [isHalting, Bool.or_eq_true, Bool.not_eq_true'] at h ⊢
  rcases h with h | h
  · cases c with
    | stop => exact .inl (isRunning_heed_stop l)
    | interrupt => exact .inl ((isRunning_heed_interrupt l).trans h)
  · exact .inr ((interrupted_heed c l).mpr (.inl h))

/-- **A run that was granted a request enters no further poll.** -/
theorem isHalting_of_grants (h : l.grants c = true) : (l.heed c).isHalting = true := by
  rw [isHalting, Bool.or_eq_true, Bool.not_eq_true']
  cases c with
  | stop => exact .inl (isRunning_heed_stop l)
  | interrupt => exact .inr ((interrupted_heed .interrupt l).mpr (.inr ⟨rfl, h⟩))

/-! ### Requests in a row -/

/-- What several requests in a row leave. -/
def heedAll (cs : List Control) (l : Lifecycle) : Lifecycle :=
  cs.foldl (fun l c => l.heed c) l

/-- What a consumer that makes several requests in a row is told. -/
def replies : List Control → Lifecycle → List Event
  | [], _ => []
  | c :: cs, l => .controlled c (l.grants c) :: replies cs (l.heed c)

/-- What every request leaves as it is, several requests do. -/
theorem heedAll_keeps {α : Type} (f : Lifecycle → α) (hkeeps : ∀ c l, f (heed c l) = f l)
    (cs : List Control) (l : Lifecycle) : f (l.heedAll cs) = f l := by
  induction cs generalizing l with
  | nil => rfl
  | cons c cs ih => exact (ih (l.heed c)).trans (hkeeps c l)

/-- Several requests leave the latch alone. -/
theorem latch_heedAll (cs : List Control) (l : Lifecycle) : (l.heedAll cs).latch = l.latch :=
  heedAll_keeps latch latch_heed cs l

/-- Several requests leave a run its place. -/
theorem isTaken_heedAll (cs : List Control) (l : Lifecycle) :
    (l.heedAll cs).isTaken = l.isTaken :=
  heedAll_keeps isTaken isTaken_heed cs l

/-- A consumer is told nothing but what becomes of its requests. -/
theorem not_mem_replies {cs : List Control} {e : Event}
    (he : ∀ c granted, e ≠ .controlled c granted) (l : Lifecycle) : e ∉ l.replies cs := by
  induction cs generalizing l with
  | nil => exact List.not_mem_nil
  | cons c cs ih => exact List.not_mem_cons_of_ne_of_not_mem (he c _) (ih (l.heed c))

/-- **Of several stops at most one is granted**, and none if the run was asked to stop before. -/
theorem stopsGranted_replies (cs : List Control) (l : Lifecycle) :
    stopsGranted (l.replies cs) + (l.heedAll cs).isRunning.toNat = l.isRunning.toNat := by
  induction cs generalizing l with
  | nil => exact Nat.zero_add _
  | cons c cs ih =>
    have hrest := ih (l.heed c)
    change stopsGranted (_ :: _) + ((l.heed c).heedAll cs).isRunning.toNat = _
    rw [stopsGranted_cons]
    cases c with
    | stop =>
      have hcount : (Event.controlled .stop (l.grants .stop)).isStopGranted = l.isRunning := by
        rw [grants_stop]
        cases l.isRunning <;> rfl
      rw [isRunning_heed_stop, Bool.toNat_false] at hrest
      rw [hcount]
      omega
    | interrupt =>
      rw [isRunning_heed_interrupt] at hrest
      exact hrest

/-- The flag is up after several requests if it was before, or one of them raised it. -/
theorem interrupted_heedAll (cs : List Control) (l : Lifecycle) :
    (l.heedAll cs).interrupted = true ↔
      l.interrupted = true ∨ .controlled .interrupt true ∈ l.replies cs := by
  induction cs generalizing l with
  | nil => simp [heedAll, replies]
  | cons c cs ih =>
    change ((l.heed c).heedAll cs).interrupted = true ↔ _
    rw [ih, interrupted_heed, replies, List.mem_cons]
    cases c with
    | stop => simp
    | interrupt => simp [or_assoc]

/-- A run that enters no further poll enters none after several requests. -/
theorem isHalting_heedAll (h : l.isHalting = true) (cs : List Control) :
    (l.heedAll cs).isHalting = true := by
  induction cs generalizing l with
  | nil => exact h
  | cons c cs ih => exact ih (isHalting_heed h c)

/-- A run whose consumer was granted a request enters no further poll. -/
theorem isHalting_of_mem_replies {cs : List Control} (h : .controlled c true ∈ l.replies cs) :
    (l.heedAll cs).isHalting = true := by
  induction cs generalizing l with
  | nil => cases h
  | cons c' cs ih =>
    rcases List.mem_cons.mp h with heq | h
    · obtain ⟨rfl, hgrants⟩ := Event.controlled.inj heq
      exact isHalting_heedAll (isHalting_of_grants hgrants.symm) cs
    · exact ih h

end Lifecycle

namespace Host

/-! ### Requests of hosts -/

/-- A host is asked by asking its lifecycle. -/
theorem ask_eq (c : Control) (h : Host) :
    h.ask c = (h.lifecycle.grants c, { h with lifecycle := h.lifecycle.heed c }) := by
  cases c <;> rfl

/-- A consumer asks its run by asking the lifecycle, and is told what becomes of it. -/
theorem control_eq_emit (r : Nat) (c : Control) (h : Host) :
    h.control r c =
      { h with lifecycle := h.lifecycle.heed c }.emit r
        (.controlled c (h.lifecycle.grants c)) := by
  cases c <;> rfl

/-- **What a consumer asks of its run** is asked of the lifecycle, one after the other. -/
theorem foldl_control_eq (r : Nat) (cs : List Control) (h : Host) :
    cs.foldl (fun h c => h.control r c) h =
      { h with lifecycle := h.lifecycle.heedAll cs }.emitAll r (h.lifecycle.replies cs) := by
  induction cs generalizing h with
  | nil => rfl
  | cons c cs ih =>
    rw [List.foldl_cons, ih, control_eq_emit, emitAll_eq, emitAll_eq]
    simp [emit, Lifecycle.heedAll, Lifecycle.replies]

end Host

end ChangeCapture
