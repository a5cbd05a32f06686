import ChangeCapture.Proofs.Offsets.Write
import ChangeCapture.Proofs.Run.Moves

/-!
# The books of a run

A run keeps books on positions: it records the position of a batch before it delivers the batch,
sets positions aside to flush them, and has at most one write of its own under way. Here is what one
step may do to writer and writes, to the place that a run takes, and to the store.

## Main definitions

* `Standing`, `Stage.standing`: how the books stand at a stage.
* `Books`: what one step may do to writer and writes.
* `Place`: what one step may do to the one place for a run, and to the store.
* `Reading`: what one step may do about the committed offsets that a task reads.

## Main results

* `Books.writes_cases` — what one step may do to the writes.
* `Books.mem_cases` — what one step may say of the books.
-/

namespace ChangeCapture

/-! ### How the books stand -/

/-- How the books of a run stand. -/
inductive Standing where
  /-- What is pending was delivered. -/
  | settled
  /-- The position of a batch was recorded ahead of its delivery; some of its records are left. -/
  | ahead (rest batch : List Record)
  /-- A flush is outstanding, and its write is waited for. -/
  | waiting (write : Nat)
  /-- Nothing will be flushed any more. -/
  | closed

/-- The position of a batch is that of its last record. -/
def batchPosition? (batch : List Record) : Option (Partition × Offset) :=
  batch.getLast?.map fun x => (x.partition, x.offset)

/-- How the books of a run stand at a stage. -/
def Stage.standing : Stage → Standing
  | .delivering rest batch => .ahead rest batch
  | .flushing write _ _ => .waiting write
  | .stoppingTask _ | .stoppingConnector _ | .stoppingStore _ | .leaving _ => .closed
  | _ => .settled

/-- Whether an event is neither about the books nor about a write. -/
def Event.isPlain : Event → Bool
  | .delivered _ | .committed _ | .submitted _ _ | .setInStore _ _ | .answered _ _ => false
  | _ => true

/-- The books of a run that may go back to its loop, or on its way out, after a commit. -/
def Standing.isRest : Standing → Bool
  | .settled | .closed => true
  | .ahead _ _ | .waiting _ => false

/-- **What one step may do to writer and writes.** -/
inductive Books (s : Setup) (r : Nat) (h : Host) :
    RunStatus → List Event → RunStatus → Host → Prop where
  | opens {a' : Active} {es : List Event} {h' : Host} (hes : es.all Event.isPlain = true)
      (hw : a'.writer = { format := s.offsetFormat }) (hst : a'.stage.standing = .settled)
      (hws : h'.writes = h.writes) : Books s r h .requested es (.active a') h'
  | keeps {a a' : Active} {es : List Event} {h' : Host} (hes : es.all Event.isPlain = true)
      (hw : a'.writer = a.writer) (hst : ∀ n, a.stage.standing ≠ .waiting n)
      (hst' : a'.stage.standing = a.stage.standing ∨ a'.stage.standing = .closed)
      (hws : h'.writes = h.writes) : Books s r h (.active a) es (.active a') h'
  | receives {a a' : Active} {es : List Event} {h' : Host} {batch : List Record}
      {x : Partition × Offset}
      (hes : es.all Event.isPlain = true) (hx : batchPosition? batch = some x)
      (hw : a'.writer = a.writer.record x.1 x.2) (hst : a.stage.standing = .settled)
      (hst' : a'.stage.standing = .ahead batch batch) (hws : h'.writes = h.writes) :
      Books s r h (.active a) es (.active a') h'
  | hands {a a' : Active} {es : List Event} {h' : Host} {x : Record} {rest batch : List Record}
      (hes : es.all Event.isPlain = true) (hx : .taken x ∈ es) (hw : a'.writer = a.writer)
      (hst : a.stage.standing = .ahead (x :: rest) batch)
      (hst' : a'.stage.standing = .ahead rest batch)
      (hws : h'.writes = h.writes) : Books s r h (.active a) es (.active a') h'
  | delivers {a a' : Active} {batch : List Record} {h' : Host} (hw : a'.writer = a.writer)
      (hst : a.stage.standing = .ahead [] batch) (hst' : a'.stage.standing = .settled)
      (hws : h'.writes = h.writes) : Books s r h (.active a) [.delivered batch] (.active a') h'
  | submits {a a' : Active} {es : List Event} {h' : Host} {w : OffsetWriter} {flushId : Nat}
      {entries : Entries} (hes : es.all Event.isPlain = true)
      (hb : a.writer.beginFlush = .ok (some w))
      (hs : w.submit = (.submitted flushId entries, a'.writer)) (hst : a.stage.standing = .settled)
      (hst' : a'.stage.standing = .waiting h.writes.length)
      (hws : h'.writes = h.writes ++ [{ run := r, flushId, entries }]) :
      Books s r h (.active a) (es ++ [.submitted h.writes.length entries]) (.active a') h'
  | refuses {a a' : Active} {es : List Event} {h' : Host} {w : OffsetWriter}
      (hes : es.all Event.isPlain = true) (hb : a.writer.beginFlush = .ok (some w))
      (hs : w.submit.2 = a'.writer)
      (hno : ∀ flushId entries, w.submit.1 ≠ .submitted flushId entries)
      (hst : a.stage.standing = .settled) (hst' : a'.stage.standing.isRest = true)
      (hws : h'.writes = h.writes) : Books s r h (.active a) es (.active a') h'
  | commits {a a' : Active} (es : List Event) {h' : Host} {n : Nat} {write : Write}
      (hes : es.all Event.isPlain = true) (hn : h.writes[n]? = some write)
      (hok : write.status = .finished none)
      (hw : a'.writer = (a.writer.complete? write.flushId).getD a.writer)
      (hst : a.stage.standing = .waiting n) (hst' : a'.stage.standing.isRest = true)
      (hws : h'.writes = h.writes) :
      Books s r h (.active a) (es ++ [.committed n]) (.active a') h'
  | givesUp {a a' : Active} {es : List Event} {h' : Host} {n : Nat}
      (hes : es.all Event.isPlain = true)
      (hw : a'.writer = a.writer.cancelFlush) (hst : a.stage.standing = .waiting n)
      (hst' : a'.stage.standing.isRest = true) (hws : h'.writes = h.writes.modify n Write.cancel) :
      Books s r h (.active a) es (.active a') h'
  | ends {st : RunStatus} {es : List Event} {outcome : RunEnd} {h' : Host}
      (hes : es.all Event.isPlain = true)
      (hst : ∀ a n, st = .active a → a.stage.standing = .waiting n →
        ∀ result, outcome ≠ .returned result)
      (hend : ∀ a, st = .active a → .ended outcome ∈ es) (hws : h'.writes = h.writes) :
      Books s r h st es (.ended outcome) h'

/-! ### Writes in the books -/

namespace Books

variable {s : Setup} {r m : Nat} {h h' : Host} {st st' : RunStatus} {es : List Event} {w : Write}

/-- **What one step may do to the writes**: leave them, submit one that its run waits for from now
on, or cancel one. -/
theorem writes_cases (hb : Books s r h st es st' h') :
    h'.writes = h.writes ∨
    (∃ a' w, st' = .active a' ∧ a'.stage.standing = .waiting h.writes.length ∧ w.run = r ∧
      .submitted h.writes.length w.entries ∈ es ∧ h'.writes = h.writes ++ [w]) ∨
    ∃ n, h'.writes = h.writes.modify n Write.cancel := by
  cases hb with
  | opens _ _ _ hws | keeps _ _ _ _ hws | receives _ _ _ _ _ hws | hands _ _ _ _ _ hws
  | delivers _ _ _ hws | refuses _ _ _ _ _ _ hws | commits _ _ _ _ _ _ _ hws | ends _ _ _ hws =>
    exact .inl hws
  | submits _ _ _ _ hst' hws =>
    exact .inr (.inl ⟨_, _, rfl, hst', rfl, List.mem_append_right _ List.mem_cons_self, hws⟩)
  | givesUp _ _ _ _ hws => exact .inr (.inr ⟨_, hws⟩)

/-- No write is lost, and nothing of it changes but how far it is. -/
theorem kept (hb : Books s r h st es st' h') (hm : h.writes[m]? = some w) :
    ∃ status, h'.writes[m]? = some { w with status } := by
  obtain hws | ⟨-, w', -, -, -, -, hws⟩ | ⟨n, hws⟩ := hb.writes_cases
  · exact ⟨w.status, hws ▸ hm⟩
  · obtain ⟨hlt, -⟩ := List.getElem?_eq_some_iff.mp hm
    exact ⟨w.status, by rw [hws, List.getElem?_append_left hlt, hm]⟩
  · rw [hws, List.getElem?_modify, hm]
    by_cases hn : n = m
    · obtain ⟨status, hc⟩ := w.cancel_eq
      exact ⟨status, by simp [hn, hc]⟩
    · exact ⟨w.status, by simp [hn]⟩

/-- A write was there before, or its entries are submitted by the step. -/
theorem written (hb : Books s r h st es st' h') (hm : h'.writes[m]? = some w) :
    (∃ w₀, h.writes[m]? = some w₀ ∧ w₀.run = w.run ∧ w₀.entries = w.entries) ∨
    w.run = r ∧ .submitted m w.entries ∈ es := by
  obtain hws | ⟨-, w', -, -, hrun, hsub, hws⟩ | ⟨n, hws⟩ := hb.writes_cases
  · exact .inl ⟨w, hws ▸ hm, rfl, rfl⟩
  · rw [hws] at hm
    obtain hm | ⟨rfl, rfl⟩ := getElem?_concat_cases hm
    · exact .inl ⟨w, hm, rfl, rfl⟩
    · exact .inr ⟨hrun, hsub⟩
  · rw [hws, List.getElem?_modify] at hm
    obtain ⟨w₀, hm₀, rfl⟩ := Option.map_eq_some_iff.mp hm
    refine .inl ⟨w₀, hm₀, ?_⟩
    split
    · obtain ⟨status, hc⟩ := w₀.cancel_eq
      rw [hc]
      exact ⟨rfl, rfl⟩
    · exact ⟨rfl, rfl⟩

/-- A live write was live before, or it is the one that its run waits for from now on. -/
theorem live (hb : Books s r h st es st' h') (hm : h'.writes[m]? = some w) (hl : w.isLive = true) :
    h.writes[m]? = some w ∨
    w.run = r ∧ ∃ a', st' = .active a' ∧ a'.stage.standing = .waiting m := by
  obtain hws | ⟨a', w', hst', hwait, hrun, -, hws⟩ | ⟨n, hws⟩ := hb.writes_cases
  · exact .inl (hws ▸ hm)
  · rw [hws] at hm
    obtain hm | ⟨rfl, rfl⟩ := getElem?_concat_cases hm
    · exact .inl hm
    · exact .inr ⟨hrun, a', hst', hwait⟩
  · rw [hws, List.getElem?_modify] at hm
    by_cases hn : n = m
    · obtain ⟨w₀, -, rfl⟩ := Option.map_eq_some_iff.mp hm
      rw [if_pos hn, Write.isLive_cancel] at hl
      cases hl
    · exact .inl (by simpa [hn] using hm)

/-! ### Events in the books -/

/-- **What one step may say of the books**: that a batch is delivered, of which no record is left;
or, at its end, that a set of entries is submitted, or that a flush is confirmed whose write the run
has waited for. -/
theorem mem_cases {e : Event} (hb : Books s r h st es st' h') (hm : e ∈ es)
    (he : e.isPlain = false) :
    (∃ a batch, e = .delivered batch ∧ st = .active a ∧ a.stage.standing = .ahead [] batch) ∨
    (∃ a es₀ w flushId entries, e = .submitted h.writes.length entries ∧ st = .active a ∧
      a.stage.standing = .settled ∧ es₀.all Event.isPlain = true ∧ es = es₀ ++ [e] ∧
      a.writer.beginFlush = .ok (some w) ∧ w.submit.1 = .submitted flushId entries ∧
      h'.writes = h.writes ++ [{ run := r, flushId, entries }]) ∨
    ∃ a es₀ n write, e = .committed n ∧ st = .active a ∧ a.stage.standing = .waiting n ∧
      es₀.all Event.isPlain = true ∧ es = es₀ ++ [e] ∧ h.writes[n]? = some write ∧
      write.status = .finished none := by
  cases hb with
  | opens hes | keeps hes | receives hes | hands hes | refuses hes | givesUp hes | ends hes =>
    exact absurd hm (Event.not_mem_of_all hes he)
  | @delivers a _ batch _ _ hst =>
    exact .inl ⟨a, batch, List.mem_singleton.mp hm, rfl, hst⟩
  | @submits a _ es₀ _ w flushId entries hes hbegin hs hst _ hws =>
    rcases List.mem_append.mp hm with hm | hm
    · exact absurd hm (Event.not_mem_of_all hes he)
    · obtain rfl := List.mem_singleton.mp hm
      exact .inr (.inl ⟨a, es₀, w, flushId, entries, rfl, rfl, hst, hes, rfl, hbegin,
        by rw [hs], hws⟩)
  | @commits a _ es₀ _ n write hes hn hok _ hst =>
    rcases List.mem_append.mp hm with hm | hm
    · exact absurd hm (Event.not_mem_of_all hes he)
    · obtain rfl := List.mem_singleton.mp hm
      exact .inr (.inr ⟨a, es₀, n, write, rfl, rfl, hst, hes, rfl, hn, hok⟩)

/-- What a step submits comes last in it, and nothing before it touches the books. -/
theorem of_submitted {entries : Entries} (hb : Books s r h st es st' h')
    (hm : .submitted m entries ∈ es) :
    ∃ a es₀ w flushId, st = .active a ∧ a.stage.standing = .settled ∧ es₀.all Event.isPlain = true ∧
      es = es₀ ++ [.submitted m entries] ∧ a.writer.beginFlush = .ok (some w) ∧
      w.submit.1 = .submitted flushId entries := by
  obtain ⟨_, _, heq, -⟩ | ⟨a, es₀, w, flushId, _, heq, hst, hstand, hes, hes', hbegin, hs, -⟩ |
    ⟨_, _, _, _, heq, -⟩ := hb.mem_cases hm rfl
  · cases heq
  · cases heq
    exact ⟨a, es₀, w, flushId, hst, hstand, hes, hes', hbegin, hs⟩
  · cases heq

/-- What a step submits is a new write of its run. -/
theorem write_of_submitted {entries : Entries} (hb : Books s r h st es st' h')
    (hm : .submitted m entries ∈ es) :
    ∃ w, h'.writes[m]? = some w ∧ w.run = r ∧ w.entries = entries := by
  obtain ⟨_, _, heq, -⟩ | ⟨_, _, _, _, _, heq, -, -, -, -, -, -, hws⟩ | ⟨_, _, _, _, heq, -⟩ :=
    hb.mem_cases hm rfl
  · cases heq
  · cases heq
    rw [hws, List.getElem?_concat_length]
    exact ⟨_, rfl, rfl, rfl⟩
  · cases heq

/-- What a step confirms comes last in it, and it is the write that its run has waited for. -/
theorem of_committed (hb : Books s r h st es st' h') (hm : .committed m ∈ es) :
    ∃ a es₀ write, st = .active a ∧ a.stage.standing = .waiting m ∧ es₀.all Event.isPlain = true ∧
      es = es₀ ++ [.committed m] ∧ h.writes[m]? = some write ∧ write.status = .finished none := by
  obtain ⟨_, _, heq, -⟩ | ⟨_, _, _, _, _, heq, -⟩ |
    ⟨a, es₀, _, write, heq, hst, hstand, hes, hes', hn, hok⟩ := hb.mem_cases hm rfl
  · cases heq
  · cases heq
  · cases heq
    exact ⟨a, es₀, write, hst, hstand, hes, hes', hn, hok⟩

/-- No record is left of a batch that a step delivers. -/
theorem of_delivered {batch : List Record} (hb : Books s r h st es st' h')
    (hm : .delivered batch ∈ es) :
    ∃ a, st = .active a ∧ a.stage.standing = .ahead [] batch := by
  obtain ⟨a, _, heq, hst, hstand⟩ | ⟨_, _, _, _, _, heq, -⟩ | ⟨_, _, _, _, heq, -⟩ :=
    hb.mem_cases hm rfl
  · cases heq
    exact ⟨a, hst, hstand⟩
  · cases heq
  · cases heq

/-- No step of a run sets entries in the store itself. -/
theorem setInStore_not_mem {entries : Entries} (hb : Books s r h st es st' h') :
    .setInStore m entries ∉ es := by
  intro hm
  obtain ⟨_, _, heq, -⟩ | ⟨_, _, _, _, _, heq, -⟩ | ⟨_, _, _, _, heq, -⟩ := hb.mem_cases hm rfl
  all_goals cases heq

/-! ### Standing in the books -/

/-- What is left of a batch was left before a step, or is all of it, or lacks a record that the
consumer has just taken. -/
theorem ahead {a' : Active} {rest batch : List Record} (hb : Books s r h st es (.active a') h')
    (hst : a'.stage.standing = .ahead rest batch) :
    (∃ a, st = .active a ∧ a.stage.standing = .ahead rest batch) ∨ rest = batch ∨
    ∃ a x, st = .active a ∧ a.stage.standing = .ahead (x :: rest) batch ∧ .taken x ∈ es := by
  cases hb with
  | opens _ _ hs | delivers _ _ hs | submits _ _ _ _ hs =>
    rw [hst] at hs
    cases hs
  | refuses _ _ _ _ _ hs | commits _ _ _ _ _ _ hs | givesUp _ _ _ hs =>
    rw [hst] at hs
    cases hs
  | keeps _ _ _ hs =>
    rcases hs with hs | hs
    · exact .inl ⟨_, rfl, hs.symm.trans hst⟩
    · rw [hst] at hs
      cases hs
  | receives _ _ _ _ hs =>
    obtain ⟨rfl, rfl⟩ := Standing.ahead.inj (hst.symm.trans hs)
    exact .inr (.inl rfl)
  | hands _ hx _ hs hs' =>
    obtain ⟨rfl, rfl⟩ := Standing.ahead.inj (hst.symm.trans hs')
    exact .inr (.inr ⟨_, _, rfl, hs, hx⟩)

/-- A run that leaves a live write behind breaks off. -/
theorem breaks_off {a : Active} (hb : Books s r h (.active a) es st' h')
    (hst : a.stage.standing = .waiting m) (hm : h'.writes[m]? = some w) (hl : w.isLive = true) :
    ∃ outcome, st' = .ended outcome ∧ .ended outcome ∈ es ∧
      ∀ result, outcome ≠ .returned result := by
  cases hb with
  | keeps _ _ hno => exact absurd hst (hno m)
  | receives _ _ _ hs | hands _ _ _ hs | delivers _ hs | submits _ _ _ hs | refuses _ _ _ _ hs =>
    rw [hst] at hs
    cases hs
  | commits es _ hn hok _ hs _ hws =>
    rw [hst, Standing.waiting.injEq] at hs
    rw [hws, hs, hn, Option.some.injEq] at hm
    rw [← hm, Write.isLive_finished hok] at hl
    cases hl
  | givesUp _ _ hs _ hws =>
    rw [hst, Standing.waiting.injEq] at hs
    rw [hws, List.getElem?_modify] at hm
    obtain ⟨w₀, -, rfl⟩ := Option.map_eq_some_iff.mp hm
    rw [if_pos hs.symm, Write.isLive_cancel] at hl
    cases hl
  | ends _ hret hend => exact ⟨_, rfl, hend a rfl, hret a m rfl hst⟩

/-- A run that waits for a write after a step has just submitted it, after all others. -/
theorem waits {a' : Active} (hb : Books s r h st es (.active a') h')
    (hst : a'.stage.standing = .waiting m) :
    m = h.writes.length ∧
      ∃ flushId entries, h'.writes = h.writes ++ [{ run := r, flushId, entries }] := by
  cases hb with
  | opens _ _ hs | receives _ _ _ _ hs | hands _ _ _ _ hs | delivers _ _ hs =>
    rw [hst] at hs
    cases hs
  | keeps _ _ hno hs =>
    rcases hs with hs | hs
    · exact absurd (hs.symm.trans hst) (hno m)
    · rw [hst] at hs
      cases hs
  | refuses _ _ _ _ _ hs | commits _ _ _ _ _ _ hs | givesUp _ _ _ hs =>
    rw [hst] at hs
    cases hs
  | submits _ _ _ _ hs hws =>
    rw [hst, Standing.waiting.injEq] at hs
    exact ⟨hs, _, _, hws⟩

/-- The write that a run waits for after a step is its own, and it was just submitted. -/
theorem awaited {a' : Active} (hb : Books s r h st es (.active a') h')
    (hst : a'.stage.standing = .waiting m) :
    ∃ w, h'.writes[m]? = some w ∧ w.run = r ∧ w.status = .submitted := by
  obtain ⟨rfl, flushId, entries, hws⟩ := hb.waits hst
  rw [hws, List.getElem?_concat_length]
  exact ⟨_, rfl, rfl, rfl⟩

/-- A step of a run brings no write to its end. -/
theorem finished {error : Option OffsetError} (hb : Books s r h st es st' h')
    (hm : h'.writes[m]? = some w) (hok : w.status = .finished error) : h.writes[m]? = some w := by
  obtain hws | ⟨a', -, rfl, hwait, -⟩ | ⟨n, hws⟩ := hb.writes_cases
  · exact hws ▸ hm
  · obtain ⟨-, flushId, entries, hws⟩ := hb.waits hwait
    rw [hws] at hm
    obtain hm | ⟨-, rfl⟩ := getElem?_concat_cases hm
    · exact hm
    · cases hok
  · rw [hws, List.getElem?_modify] at hm
    obtain ⟨w₀, hm₀, rfl⟩ := Option.map_eq_some_iff.mp hm
    by_cases hn : n = m
    · rw [if_pos hn] at hok ⊢
      rw [hm₀, Write.cancel_of_finished hok]
    · rw [if_neg hn, hm₀]

end Books

/-! ### The place and the store -/

/-- Whether the store of a run has started. -/
def Stage.isStarted : Stage → Bool
  | .startingStore _ => false
  | _ => true

/-- **What one step may do to the one place for runs, and to the store.** A run is only accepted
when the place is free, and then has it; the store starts once, and otherwise only writes change
it. -/
structure Place (h : Host) (st : RunStatus) (st' : RunStatus) (h' : Host) : Prop where
  beside : st = .requested → h.lifecycle.isTaken = true →
    (∀ a', st' ≠ .active a') ∧ h'.lifecycle.isTaken = true
  taken : (∀ a, st = .active a → h.lifecycle.isTaken = true) →
    ∀ a', st' = .active a' → h'.lifecycle.isTaken = true
  started : ∀ a', st' = .active a' → a'.stage.isStarted = true →
    (∃ a, st = .active a ∧ a.stage.isStarted = true) ∧ h'.store.store = h.store.store ∨
    h.store.store.start = .ok h'.store.store
  kept : h'.store.store = h.store.store ∨
    ∃ a a', st = .active a ∧ st' = .active a' ∧ h.store.store.start = .ok h'.store.store

/-! ### The offsets that a task reads -/

/-- **What one step may do about the committed offsets that a task reads.** -/
structure Reading (s : Setup) (h : Host) (st : RunStatus) (es : List Event)
    (st' : RunStatus) : Prop where
  connector : ∀ a', st' = .active a' →
    (st = .requested ∧ s.registry.create? s.config.connectorClass = some a'.connector) ∨
    ∃ a, st = .active a ∧ a'.connector = a.connector
  request : ∀ a' call request, st' = .active a' → a'.stage = .resuming call request →
    ∃ ps keys, a'.connector.resumes = some ps ∧ s.offsetFormat.storeKeys ps = .ok keys ∧
      request = ps.zip keys
  resumed : ∀ offsets, .resumed offsets ∈ es → ∃ a call request, st = .active a ∧
    a.stage = .resuming call request ∧
    offsets = (s.offsetFormat.collect (h.store.store.get (request.map Prod.snd)) request).offsets

end ChangeCapture
