import ChangeCapture.Offsets.Write

/-!
# What becomes of a background write

A write that is live takes a turn, is waited for, or is cancelled; nothing of it changes but how far
it is. Its turn leaves the store alone, or sets the entries of the write; it is only answered with
success when they were set with success.

## Main definitions

* `Write.isLive`: whether a write could still act on the store.
* `Write.TurnsStore`, `Write.Turned`: what a turn does.

## Main results

* `Write.turned_turn`, `Write.turn_of_not_isLive` — what a turn does, and when it does nothing.
-/

namespace ChangeCapture

/-- An element of a list to which one was added is an old one, or the new one. -/
theorem getElem?_concat_cases {α : Type _} {l : List α} {x y : α} {m : Nat}
    (h : (l ++ [x])[m]? = some y) : l[m]? = some y ∨ m = l.length ∧ x = y := by
  rcases Nat.lt_trichotomy m l.length with hlt | rfl | hlt
  · exact .inl (by rwa [List.getElem?_append_left hlt] at h)
  · rw [List.getElem?_concat_length] at h
    exact .inr ⟨rfl, Option.some.inj h⟩
  · rw [List.getElem?_eq_none (by simp; omega)] at h
    cases h

namespace Write

/-! ### Live writes -/

/-- Whether a write could still act on the store. -/
def isLive (w : Write) : Bool :=
  match w.status with
  | .submitted | .pending _ => true
  | .finished _ | .cancelled => false

/-- A write that was cancelled is not live. -/
theorem isLive_cancel (w : Write) : w.cancel.isLive = false := by
  rw [cancel]
  split
  · rfl
  · rfl
  all_goals rename_i hs; rw [isLive, hs]

/-- A write that is over is not live. -/
theorem isLive_finished {w : Write} {error : Option OffsetError}
    (h : w.status = .finished error) :
    w.isLive = false := by
  rw [isLive, h]

/-- Cancelling a write changes nothing but how far it is. -/
theorem cancel_eq (w : Write) : ∃ status, w.cancel = { w with status } := by
  rw [cancel]
  split
  · exact ⟨_, rfl⟩
  · exact ⟨_, rfl⟩
  all_goals exact ⟨w.status, rfl⟩

/-- What has come to an end is not cancelled. -/
theorem cancel_of_finished {w : Write} {error : Option OffsetError}
    (h : w.cancel.status = .finished error) : w.cancel = w := by
  rw [cancel] at h ⊢
  split
  · rename_i hs
    simp [hs] at h
  · rename_i hs
    simp [hs] at h
  all_goals rfl

/-! ### Turns -/

/-- What a turn of a write does to the store: nothing, or it sets the entries; and a write is only
answered with success when its entries were set with success. -/
def TurnsStore (entries : Entries) (status : WriteStatus) (store store' : Store) : Prop :=
  (store' = store ∧ status ≠ .finished none) ∨
  (store' = (store.set entries).1 ∧ (status = .finished none → (store.set entries).2 = none))

variable {w : Write} {n now : Nat} {store : PlannedStore}

/-- The outcome of a turn of a write that is live. -/
structure Turned (w : Write) (n : Nat) (store : PlannedStore) (t : WriteTurn) : Prop where
  write : ∃ status, t.write = { w with status } ∧
    TurnsStore w.entries status store.store t.store.store
  events : ∀ e ∈ t.events, e = .setInStore n w.entries ∨ ∃ error, e = .answered n error

/-- A call of the store comes back. -/
theorem turned_comeBack (w : Write) (n : Nat) (error : Option OffsetError) (store : PlannedStore) :
    w.Turned n store (w.comeBack n error store) := by
  cases error with
  | some e => exact ⟨⟨_, rfl, .inl ⟨rfl, nofun⟩⟩, fun e he => .inr ⟨_, List.mem_singleton.mp he⟩⟩
  | none =>
    refine ⟨⟨_, rfl, .inr ⟨rfl, fun hs => ?_⟩⟩, fun e he => .inr ⟨_, List.mem_singleton.mp he⟩⟩
    exact WriteStatus.finished.inj hs

/-- A call of the store is waited for. -/
theorem turned_waitFor (w : Write) (n now : Nat) (call : PendingCall) (store : PlannedStore) :
    w.Turned n store (w.waitFor n now call store) := by
  rw [waitFor]
  split
  · exact turned_comeBack w n call.error store
  · exact ⟨⟨_, rfl, .inl ⟨rfl, nofun⟩⟩, nofun⟩

/-- A write reaches the store. -/
theorem turned_reach (w : Write) (n now : Nat) (store : PlannedStore) :
    w.Turned n store (w.reach n now store) := by
  have reached : ∀ (store' : PlannedStore) {t : WriteTurn}, store'.store = store.store →
      w.Turned n store' t →
        w.Turned n store { t with events := .setInStore n w.entries :: t.events } := by
    intro store' t hs ht
    refine ⟨hs ▸ ht.write, fun e he => ?_⟩
    rcases List.mem_cons.mp he with rfl | he
    · exact .inl rfl
    · exact ht.events e he
  rw [reach]
  simp only [PlannedStore.callSet]
  refine reached { store with setCalls := store.setCalls + 1 } rfl ?_
  split
  · exact turned_waitFor _ _ _ _ _
  · exact ⟨⟨_, rfl, .inl ⟨rfl, nofun⟩⟩, nofun⟩
  · exact ⟨⟨_, rfl, .inr ⟨rfl, nofun⟩⟩, nofun⟩
  · exact ⟨⟨_, rfl, .inl ⟨rfl, nofun⟩⟩, nofun⟩

/-- **What a turn of a write does.** -/
theorem turned_turn (h : w.isLive = true) : w.Turned n store (w.turn n now store) := by
  rw [turn]
  split
  · exact turned_reach w n now store
  · exact turned_waitFor w n now _ store
  all_goals rename_i hs; rw [isLive, hs] at h; cases h

/-- A call that comes back with success is answered so. -/
theorem answered_of_comeBack {error : Option OffsetError}
    (hok : (w.comeBack n error store).write.status = .finished none) :
    .answered n none ∈ (w.comeBack n error store).events := by
  cases error with
  | some e => cases hok
  | none =>
    have hset : (store.set w.entries).2 = none := WriteStatus.finished.inj hok
    change Event.answered n none ∈ [Event.answered n (store.set w.entries).2]
    rw [hset]
    exact List.mem_cons_self

/-- A call that is waited for and has come back with success is answered so. -/
theorem answered_of_waitFor {call : PendingCall}
    (hok : (w.waitFor n now call store).write.status = .finished none) :
    .answered n none ∈ (w.waitFor n now call store).events := by
  rw [waitFor] at hok ⊢
  split
  · rename_i hback
    rw [if_pos hback] at hok
    exact answered_of_comeBack hok
  · rename_i hback
    rw [if_neg hback] at hok
    cases hok

/-- **A write that a turn ends with success is answered so.** -/
theorem answered_of_turn (hlive : w.isLive = true)
    (hok : (w.turn n now store).write.status = .finished none) :
    .answered n none ∈ (w.turn n now store).events := by
  rw [turn] at hok ⊢
  split
  · rename_i hs
    simp only [hs, reach, PlannedStore.callSet] at hok ⊢
    refine List.mem_cons_of_mem _ ?_
    generalize store.plan.sets store.setCalls = outcome at hok
    cases outcome with
    | answers delay error => exact answered_of_waitFor hok
    | hangs | lands | panics => cases hok
  · rename_i call hs
    rw [hs] at hok
    exact answered_of_waitFor hok
  all_goals
    rename_i hs
    rw [isLive, hs] at hlive
    cases hlive

/-- A live write has its entries handed to the store in this turn, or had them before. -/
theorem setInStore_mem_turn (h : w.isLive = true) :
    (∃ call, w.status = .pending call) ∨ .setInStore n w.entries ∈ (w.turn n now store).events := by
  cases hs : w.status with
  | submitted =>
    rw [turn, hs]
    exact .inr List.mem_cons_self
  | pending call => exact .inl ⟨call, rfl⟩
  | finished error | cancelled => simp [isLive, hs] at h

/-- A write that is over does nothing more. -/
theorem turn_of_not_isLive (h : w.isLive = false) : w.turn n now store = { write := w, store } := by
  rw [turn]
  split
  any_goals rfl
  all_goals rename_i hs; rw [isLive, hs] at h; cases h

end Write

end ChangeCapture
