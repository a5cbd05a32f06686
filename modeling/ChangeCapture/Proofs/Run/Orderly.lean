import ChangeCapture.Proofs.Run.Turns

/-!
# One run at a time

At most one run of a host is active, and it has the place for runs. A background write that could
still act on the store is waited for by the run that submitted it; only a run that breaks off leaves
such a write behind.

## Main definitions

* `Host.Orderly`: the invariant.

## Main results

* `Host.Reaches.orderly` — a host that was fresh is always in order.
-/

namespace ChangeCapture

namespace Host

variable {s : Setup} {r r' n : Nat} {h h' h₀ h₁ : Host} {st st' : RunStatus} {es : List Event}

/-- Whether the run of a number is active and waits for the write of a number. -/
def Awaits (h : Host) (r n : Nat) : Prop :=
  ∃ a, h.status? r = some (.active a) ∧ a.stage.standing = .waiting n

/-- Whether the run of a number broke off: it ended and did not return. -/
def BrokeOff (h : Host) (r : Nat) : Prop :=
  ∃ outcome, h.status? r = some (.ended outcome) ∧ .ended outcome ∈ eventsOf r h.history ∧
    ∀ result, outcome ≠ .returned result

/-- **One run at a time**, and no live write but the one that it waits for, as long as no run breaks
off. -/
structure Orderly (h : Host) : Prop where
  taken : ∀ r a, h.status? r = some (.active a) → h.lifecycle.isTaken = true
  alone : ∀ r r' a a', h.status? r = some (.active a) → h.status? r' = some (.active a') → r = r'
  live : ∀ n w, h.writes[n]? = some w → w.isLive = true → h.Awaits w.run n ∨ h.BrokeOff w.run
  awaited : ∀ r n, h.Awaits r n → ∃ w, h.writes[n]? = some w ∧ w.run = r

/-- A fresh host is in order. -/
theorem Fresh.orderly (hf : h.Fresh) : h.Orderly where
  taken r a hst := by rw [hf.status?] at hst; cases hst
  alone r r' a a' hst := by rw [hf.status?] at hst; cases hst
  live n w hw := by rw [hf.writes] at hw; cases hw
  awaited r n ha := by
    obtain ⟨a, hst, -⟩ := ha
    rw [hf.status?] at hst
    cases hst

/-- How far the runs are after a step. -/
theorem Act.status? (hact : h.Act s r st es st' h₁) (hst : h.status? r = some st) (r' : Nat) :
    (h₁.setStatus r st').status? r' = if r = r' then some st' else h.status? r' :=
  hact.adds.status?_setStatus hst st' r'

/-! ### Moves that rest -/

/-- An active run was active before a move that is no step. -/
theorem Rests.active (hr : h.Rests h') {a : Active} (hst : h'.status? r = some (.active a)) :
    h.status? r = some (.active a) := by
  obtain heq | ⟨-, heq⟩ := hr.status r
  · rwa [← heq]
  · rw [heq] at hst
    cases hst

/-- How far a run is stays after a move that is no step. -/
theorem Rests.status?_eq (hr : h.Rests h') (hst : h.status? r = some st) :
    h'.status? r = some st := by
  obtain heq | ⟨hnone, -⟩ := hr.status r
  · rw [heq, hst]
  · rw [hnone] at hst
    cases hst

/-- A move that is no step keeps the order. -/
theorem Orderly.rests (ho : h.Orderly) (hr : h.Rests h') : h'.Orderly where
  taken r a hst := hr.taken.trans (ho.taken r a (hr.active hst))
  alone r r' a a' hst hst' := ho.alone r r' a a' (hr.active hst) (hr.active hst')
  live n w hw hlive := by
    rw [hr.writes] at hw
    obtain ⟨a, hst, ha⟩ | ⟨outcome, hst, hend, hret⟩ := ho.live n w hw hlive
    · exact .inl ⟨a, hr.status?_eq hst, ha⟩
    · exact .inr ⟨outcome, hr.status?_eq hst, hr.history ▸ hend, hret⟩
  awaited r n hawaits := by
    obtain ⟨a, hst, ha⟩ := hawaits
    rw [hr.writes]
    exact ho.awaited r n ⟨a, hr.active hst, ha⟩

/-! ### Turns of writes -/

/-- A turn of a write keeps how far the runs are. -/
theorem WriteTurns.status? {write : Write} {status : WriteStatus}
    (hw : h.WriteTurns n write status es h') (r : Nat) : h'.status? r = h.status? r :=
  hw.adds.status? r

/-- The writes after a turn of one of them. -/
theorem WriteTurns.getElem? {write : Write} {status : WriteStatus}
    (hw : h.WriteTurns n write status es h')
    (m : Nat) : h'.writes[m]? = if n = m then some { write with status } else h.writes[m]? := by
  rw [hw.writes, List.getElem?_set]
  obtain ⟨hlt, -⟩ := List.getElem?_eq_some_iff.mp hw.found
  by_cases hn : n = m
  · rw [if_pos hn, if_pos hn, if_pos (hn ▸ hlt)]
  · rw [if_neg hn, if_neg hn]

/-- A turn of a write keeps all writes, and only changes how far they are. -/
theorem WriteTurns.kept {write w : Write} {status : WriteStatus}
    (hw : h.WriteTurns n write status es h') {m : Nat} (hm : h.writes[m]? = some w) :
    ∃ status', h'.writes[m]? = some { w with status := status' } := by
  rw [hw.getElem?]
  split
  · rename_i hn
    rw [← hn, hw.found, Option.some.injEq] at hm
    exact ⟨status, hm ▸ rfl⟩
  · exact ⟨w.status, hm⟩

/-- No write is new after a turn of one of them. -/
theorem WriteTurns.was {write w : Write} {status : WriteStatus}
    (hw : h.WriteTurns n write status es h') {m : Nat} (hm : h'.writes[m]? = some w) :
    ∃ status', h.writes[m]? = some { w with status := status' } := by
  rw [hw.getElem?] at hm
  split at hm
  · rename_i hn
    rw [Option.some.injEq] at hm
    exact ⟨write.status, hn ▸ hm ▸ hw.found⟩
  · exact ⟨w.status, hm⟩

/-- A write that is live after a turn of one of them was live before. -/
theorem WriteTurns.was_live {write w : Write} {status : WriteStatus}
    (hw : h.WriteTurns n write status es h') {m : Nat} (hm : h'.writes[m]? = some w)
    (hlive : w.isLive = true) :
    ∃ w₀, h.writes[m]? = some w₀ ∧ w₀.isLive = true ∧ w₀.run = w.run := by
  rw [hw.getElem?] at hm
  split at hm
  · rename_i hn
    rw [Option.some.injEq] at hm
    exact ⟨write, hn ▸ hw.found, hw.live, hm ▸ rfl⟩
  · exact ⟨w, hm, hlive, rfl⟩

/-- A turn of a write keeps the order. -/
theorem Orderly.write {write : Write} {status : WriteStatus} (ho : h.Orderly)
    (hw : h.WriteTurns n write status es h') : h'.Orderly where
  taken r a hst := by
    rw [hw.status?] at hst
    rw [hw.lifecycle]
    exact ho.taken r a hst
  alone r r' a a' hst hst' := by
    rw [hw.status?] at hst hst'
    exact ho.alone r r' a a' hst hst'
  live m w hm hlive := by
    obtain ⟨w₀, hm₀, hlive₀, hrun⟩ := hw.was_live hm hlive
    obtain ⟨a, hst, ha⟩ | ⟨outcome, hst, hend, hret⟩ := hrun ▸ ho.live m w₀ hm₀ hlive₀
    · exact .inl ⟨a, (hw.status? _).trans hst, ha⟩
    · refine .inr ⟨outcome, (hw.status? _).trans hst, ?_, hret⟩
      exact hw.adds.mem_eventsOf hend
  awaited r m hawaits := by
    obtain ⟨a, hst, ha⟩ := hawaits
    rw [hw.status?] at hst
    obtain ⟨w, hm, hrun⟩ := ho.awaited r m ⟨a, hst, ha⟩
    obtain ⟨_, hm'⟩ := hw.kept hm
    exact ⟨_, hm', hrun⟩

/-! ### Steps of runs -/

/-- No other run is active beside one that takes a step and stays active. -/
theorem Orderly.alone_act (ho : h.Orderly) (hst : h.status? r = some st)
    (hlive : ∀ o, st ≠ .ended o)
    (hact : h.Act s r st es st' h₁) {a' : Active} (hst' : st' = .active a') {a : Active}
    (hr' : h.status? r' = some (.active a)) : r = r' := by
  cases st with
  | requested => exact absurd hst' ((hact.place.beside rfl (ho.taken r' a hr')).1 a')
  | active b => exact ho.alone r r' b a hst hr'
  | ended outcome => exact absurd rfl (hlive outcome)

/-- A step of a run keeps the order. -/
theorem Orderly.act (ho : h.Orderly) (hst : h.status? r = some st) (hlive : ∀ o, st ≠ .ended o)
    (hact : h.Act s r st es st' h₁) : (h₁.setStatus r st').Orderly where
  taken r' a hst' := by
    change h₁.lifecycle.isTaken = true
    rw [hact.status? hst] at hst'
    split at hst'
    · refine hact.place.taken (fun a ha => ho.taken r a (ha ▸ hst)) a (Option.some.inj hst')
    · rename_i hr
      cases st with
      | requested => exact (hact.place.beside rfl (ho.taken r' a hst')).2
      | active b => exact absurd (ho.alone r r' b a hst hst') hr
      | ended outcome => exact absurd rfl (hlive outcome)
  alone r₁ r₂ a₁ a₂ h₁' h₂' := by
    rw [hact.status? hst] at h₁' h₂'
    split at h₁'
    · split at h₂'
      · rename_i hr₁ hr₂
        rw [← hr₁, hr₂]
      · rename_i hr₁ _
        rw [← hr₁]
        exact ho.alone_act hst hlive hact (Option.some.inj h₁') h₂'
    · split at h₂'
      · rename_i _ hr₂
        rw [← hr₂]
        exact (ho.alone_act hst hlive hact (Option.some.inj h₂') h₁').symm
      · exact ho.alone r₁ r₂ a₁ a₂ h₁' h₂'
  live n w hn hl := by
    have hn : h₁.writes[n]? = some w := hn
    obtain hold | ⟨hrun, a', hst', ha'⟩ := hact.books.live hn hl
    · obtain ⟨a, ha, hwait⟩ | ⟨outcome, hend, hmem, hret⟩ := ho.live n w hold hl
      · by_cases hr : r = w.run
        · rw [← hr, hst, Option.some.injEq] at ha
          subst ha
          obtain ⟨outcome, ho', hmem, hret⟩ := hact.books.breaks_off hwait hn hl
          refine .inr ⟨outcome, ?_, ?_, hret⟩
          · rw [hact.status? hst, if_pos hr, ho']
          · change _ ∈ eventsOf w.run h₁.history
            rw [← hr]
            exact hact.adds.mem_eventsOf_self hmem
        · exact .inl ⟨a, by rw [hact.status? hst, if_neg hr, ha], hwait⟩
      · have hr : r ≠ w.run := fun hr => by
          rw [← hr, hst, Option.some.injEq] at hend
          exact hlive outcome hend
        refine .inr ⟨outcome, by rw [hact.status? hst, if_neg hr, hend], ?_, hret⟩
        exact hact.adds.mem_eventsOf hmem
    · exact .inl ⟨a', by rw [hact.status? hst, if_pos hrun.symm, hst'], ha'⟩
  awaited r' n hawaits := by
    obtain ⟨a, ha, hwait⟩ := hawaits
    change ∃ w, h₁.writes[n]? = some w ∧ w.run = r'
    rw [hact.status? hst] at ha
    split at ha
    · rename_i hr
      rw [Option.some.injEq] at ha
      subst ha
      obtain ⟨w, hn, hrun, -⟩ := hact.books.awaited hwait
      exact ⟨w, hn, hrun.trans hr⟩
    · obtain ⟨w, hn, hrun⟩ := ho.awaited r' n ⟨a, ha, hwait⟩
      obtain ⟨status, hn'⟩ := hact.books.kept hn
      exact ⟨_, hn', hrun⟩

/-! ### Runs -/

/-- Every move keeps the order. -/
theorem Orderly.move (ho : h.Orderly) (hm : Move s h h') : h'.Orderly :=
  hm.elim ho.rests (fun _ _ _ _ => ho.write) fun _ _ _ _ _ _ hst hlive hact heq =>
    heq ▸ ho.act hst hlive hact

/-- **A host that was fresh is always in order.** -/
theorem Reaches.orderly (hf : h₀.Fresh) (hr : Reaches s h₀ h) : h.Orderly := by
  induction hr with
  | refl => exact hf.orderly
  | tail _ hm ih => exact ih.move hm

end Host

end ChangeCapture
