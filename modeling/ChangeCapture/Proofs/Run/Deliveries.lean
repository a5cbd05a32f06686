import ChangeCapture.Proofs.Run.Orderly
import Mathlib.Data.List.Induction

/-!
# What a delivered batch went through

A run hands the records of a batch to the consumer one by one, and the batch counts as delivered
once none is left. So whenever a batch is delivered, the consumer has taken each of its records
before.

## Main definitions

* `Throughout`: what holds of every event and the history before it.
* `HandedOver`: how far a batch is handed over.

## Main results

* `Host.Reaches.delivers_taken` — the records of a delivered batch were all taken.
-/

namespace ChangeCapture

/-! ### The whole history -/

/-- What holds of every event of a history and of what happened before it. -/
def Throughout (P : HistoryEntry → List HistoryEntry → Prop) : List HistoryEntry → Prop
  | [] => True
  | x :: older => P x older ∧ Throughout P older

namespace Throughout

variable {P : HistoryEntry → List HistoryEntry → Prop}

/-- What holds throughout held before. -/
theorem older {newer older : List HistoryEntry} (h : Throughout P (newer ++ older)) :
    Throughout P older := by
  induction newer with
  | nil => exact h
  | cons y newer ih => exact ih h.2

/-- What holds throughout holds of every event. -/
theorem split {later earlier : List HistoryEntry} {x : HistoryEntry}
    (h : Throughout P (later ++ x :: earlier)) : P x earlier :=
  h.older.1

/-- Events may be added of which it holds after all that happened before. -/
theorem append {newer older : List HistoryEntry} (h : Throughout P older)
    (hnewer : ∀ x ∈ newer, ∀ between, P x (between ++ older)) : Throughout P (newer ++ older) := by
  induction newer with
  | nil => exact h
  | cons x newer ih =>
    exact ⟨hnewer x List.mem_cons_self _, ih fun y hy => hnewer y (List.mem_cons_of_mem _ hy)⟩

/-- What holds of the events of a step, each after those before it, holds throughout. -/
theorem adds_in_order {r : Nat} {es : List Event} {h h' : Host} (ht : Throughout P h.history)
    (ha : h.Adds r es h') (hes : ∀ es₁ e es₂, es = es₁ ++ e :: es₂ →
      P ⟨r, h.now, e⟩ ((es₁.map (HistoryEntry.mk r h.now)).reverse ++ h.history)) :
    Throughout P h'.history := by
  rw [ha.history]
  have general : ∀ es₁ es₂, es = es₁ ++ es₂ →
      Throughout P ((es₁.map (HistoryEntry.mk r h.now)).reverse ++ h.history) := by
    intro es₁
    induction es₁ using List.reverseRecOn with
    | nil => exact fun _ _ => ht
    | append_singleton es₁ e ih =>
      intro es₂ heq
      rw [List.append_assoc, List.singleton_append] at heq
      rw [List.map_append, List.reverse_append]
      exact ⟨hes es₁ e es₂ heq, ih _ heq⟩
  exact general es [] (List.append_nil es).symm

/-- What holds of every event that is added holds throughout. -/
theorem adds {r : Nat} {es : List Event} {h h' : Host} (ht : Throughout P h.history)
    (ha : h.Adds r es h') (hes : ∀ e ∈ es, ∀ between, P ⟨r, h.now, e⟩ (between ++ h.history)) :
    Throughout P h'.history := by
  refine ht.adds_in_order ha fun es₁ e es₂ heq => hes e ?_ _
  rw [heq]
  exact List.mem_append_right _ List.mem_cons_self

end Throughout

/-! ### Handing over a batch -/

/-- **How far a batch is handed over**: the consumer has taken all records but the rest. -/
def HandedOver (es : List Event) (rest batch : List Record) : Prop :=
  ∃ done, batch = done ++ rest ∧ ∀ x ∈ done, .taken x ∈ es

namespace HandedOver

variable {es es' : List Event} {rest batch : List Record} {x : Record}

/-- At first no record is taken. -/
theorem start (es : List Event) (batch : List Record) : HandedOver es batch batch :=
  ⟨[], rfl, nofun⟩

/-- Later a batch is handed over at least as far. -/
theorem later (h : HandedOver es rest batch) (hes : ∀ e ∈ es, e ∈ es') :
    HandedOver es' rest batch := by
  obtain ⟨done, hdone, htaken⟩ := h
  exact ⟨done, hdone, fun x hx => hes _ (htaken x hx)⟩

/-- One more record is taken. -/
theorem take (h : HandedOver es (x :: rest) batch) (hx : .taken x ∈ es) :
    HandedOver es rest batch := by
  obtain ⟨done, rfl, htaken⟩ := h
  refine ⟨done ++ [x], by simp, fun y hy => ?_⟩
  rcases List.mem_append.mp hy with hy | hy
  · exact htaken y hy
  · obtain rfl := List.mem_singleton.mp hy
    exact hx

/-- If nothing is left, every record was taken. -/
theorem taken (h : HandedOver es [] batch) (hx : x ∈ batch) : .taken x ∈ es := by
  obtain ⟨done, hdone, htaken⟩ := h
  rw [List.append_nil] at hdone
  exact htaken x (hdone ▸ hx)

end HandedOver

/-- Whether the consumer has taken every record of a batch that is delivered. -/
def DeliversTaken (x : HistoryEntry) (earlier : List HistoryEntry) : Prop :=
  ∀ batch, x.event = .delivered batch → ∀ y ∈ batch, .taken y ∈ eventsOf x.run earlier

namespace Host

variable {s : Setup} {r n : Nat} {h h' h₀ h₁ : Host} {st st' : RunStatus} {es : List Event}

/-- **Batches are handed over in order**: the runs are as far with theirs as their events say, and
no batch was ever delivered before it was handed over. -/
structure HandsOver (h : Host) : Prop where
  ahead : ∀ r a rest batch, h.status? r = some (.active a) → a.stage.standing = .ahead rest batch →
    HandedOver (eventsOf r h.history) rest batch
  delivered : Throughout DeliversTaken h.history

/-- A fresh host has delivered nothing. -/
theorem Fresh.handsOver (hf : h.Fresh) : h.HandsOver where
  ahead r a rest batch hst := by rw [hf.status?] at hst; cases hst
  delivered := by rw [hf.history]; trivial

/-- A move that is no step hands nothing over. -/
theorem HandsOver.rests (ho : h.HandsOver) (hr : h.Rests h') : h'.HandsOver where
  ahead r a rest batch hst hahead := by
    rw [hr.history]
    exact ho.ahead r a rest batch (hr.active hst) hahead
  delivered := hr.history ▸ ho.delivered

/-- A turn of a write hands nothing over. -/
theorem HandsOver.write {write : Write} {status : WriteStatus} (ho : h.HandsOver)
    (hw : h.WriteTurns n write status es h') : h'.HandsOver where
  ahead r a rest batch hst hahead := by
    rw [hw.status?] at hst
    exact (ho.ahead r a rest batch hst hahead).later fun _ => hw.adds.mem_eventsOf
  delivered := by
    refine ho.delivered.adds hw.adds ?_
    intro e he between batch heq
    obtain rfl | ⟨_, rfl⟩ | rfl := hw.events e he <;> cases heq

/-- A step of a run hands over what it says. -/
theorem HandsOver.act (ho : h.HandsOver) (hst : h.status? r = some st)
    (hact : h.Act s r st es st' h₁) :
    (h₁.setStatus r st').HandsOver where
  ahead r' a rest batch hr' hahead := by
    change HandedOver (eventsOf r' h₁.history) rest batch
    rw [hact.status? hst] at hr'
    split at hr'
    · rename_i hr
      subst hr
      obtain rfl := Option.some.inj hr'
      rcases hact.books.ahead hahead with ⟨b, rfl, hb⟩ | rfl | ⟨b, x, rfl, hb, hx⟩
      · exact (ho.ahead r b rest batch hst hb).later fun _ => hact.adds.mem_eventsOf
      · exact .start _ _
      · have hbefore := ho.ahead r b (x :: rest) batch hst hb
        exact (hbefore.later fun _ => hact.adds.mem_eventsOf).take (hact.adds.mem_eventsOf_self hx)
    · exact (ho.ahead r' a rest batch hr' hahead).later fun _ => hact.adds.mem_eventsOf
  delivered := by
    change Throughout DeliversTaken h₁.history
    refine ho.delivered.adds hact.adds ?_
    intro e he between batch heq y hy
    obtain rfl : e = .delivered batch := heq
    obtain ⟨a, rfl, hahead⟩ := hact.books.of_delivered he
    rw [eventsOf_append]
    exact List.mem_append_right _ ((ho.ahead r a [] batch hst hahead).taken hy)

/-- **Batches are handed over in order** in a host that was fresh. -/
theorem Reaches.handsOver (hf : h₀.Fresh) (hr : Reaches s h₀ h) : h.HandsOver := by
  induction hr with
  | refl => exact hf.handsOver
  | tail _ hm ih =>
    exact hm.elim ih.rests (fun _ _ _ _ => ih.write)
      fun _ _ _ _ _ _ hst _ hact heq => heq ▸ ih.act hst hact

/-- **The records of a delivered batch were all taken** by the consumer. -/
theorem Reaches.delivers_taken (hf : h₀.Fresh) (hr : Reaches s h₀ h)
    {later earlier : List HistoryEntry}
    {x : HistoryEntry} (heq : h.history = later ++ x :: earlier) : DeliversTaken x earlier := by
  have hall := (Reaches.handsOver hf hr).delivered
  rw [heq] at hall
  exact hall.split

end Host

end ChangeCapture
