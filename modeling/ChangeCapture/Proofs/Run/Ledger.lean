import ChangeCapture.Proofs.Offsets.Entries
import ChangeCapture.Proofs.Run.Cleanup
import ChangeCapture.Proofs.Run.Deliveries

/-!
# What a flush carries

What a run has to flush can be read off its events: the positions of the batches that it delivered
since its last confirmed flush. Its writer holds exactly these, whatever became of the flushes in
between, so every set of entries that it submits is theirs.

## Main definitions

* `deliveredSince`: the positions delivered since the last confirmed flush.
* `Ledger`: how the writer of a run agrees with its events.

## Main results

* `Ledger.books` — one step keeps the writer in agreement with the events.
* `Host.Reaches.submitted_iff` — the exact content of every flush.
-/

namespace ChangeCapture

/-! ### What is owed -/

/-- The positions of the batches delivered since the last confirmed flush, the newest first, given
the events of a run, the newest first. -/
def deliveredSince : List Event → List (Partition × Offset)
  | [] => []
  | .committed _ :: _ => []
  | .delivered batch :: older => (batchPosition? batch).toList ++ deliveredSince older
  | _ :: older => deliveredSince older

/-- Whether an event neither delivers a batch nor confirms a flush. -/
def Event.owesNothing : Event → Bool
  | .delivered _ | .committed _ => false
  | _ => true

/-- Events that deliver and confirm nothing change nothing of what is owed. -/
theorem deliveredSince_owesNothing {newer : List Event} (h : newer.all Event.owesNothing = true)
    (older : List Event) : deliveredSince (newer ++ older) = deliveredSince older := by
  induction newer with
  | nil => rfl
  | cons e newer ih =>
    rw [List.all_cons, Bool.and_eq_true] at h
    rw [← ih h.2]
    cases e <;> first | rfl | cases h.1

/-- Plain events deliver and confirm nothing. -/
theorem owesNothing_plain {es : List Event} (h : es.all Event.isPlain = true) :
    es.all Event.owesNothing = true := by
  refine List.all_eq_true.mpr ?_
  intro e he
  have := List.all_eq_true.mp h e he
  cases e <;> first | rfl | cases this

/-- Without a confirmed flush, what was owed before is owed still. -/
theorem deliveredSince_append {newer : List Event} (h : ∀ n, .committed n ∉ newer)
    (older : List Event) :
    deliveredSince (newer ++ older) = deliveredSince newer ++ deliveredSince older := by
  induction newer with
  | nil => rfl
  | cons e newer ih =>
    have ih := ih fun n hn => h n (List.mem_cons_of_mem _ hn)
    cases e with
    | delivered batch =>
      rw [List.cons_append, deliveredSince, deliveredSince, ih, List.append_assoc]
    | committed n => exact absurd List.mem_cons_self (h n)
    | _ => exact ih

/-- After a confirmed flush, nothing of before is owed. -/
theorem deliveredSince_append_of_mem {newer : List Event} {n : Nat} (h : .committed n ∈ newer)
    (older : List Event) : deliveredSince (newer ++ older) = deliveredSince newer := by
  induction newer with
  | nil => cases h
  | cons e newer ih =>
    cases e with
    | delivered batch =>
      have ih := ih (by simpa using h)
      rw [List.cons_append, deliveredSince, deliveredSince, ih]
    | committed n => rfl
    | _ => exact ih (by simpa using h)

/-- What is owed was delivered. -/
theorem exists_of_mem_deliveredSince {x : Partition × Offset} {es : List Event}
    (hx : x ∈ deliveredSince es) :
    ∃ batch, .delivered batch ∈ es ∧ batchPosition? batch = some x := by
  induction es with
  | nil => cases hx
  | cons e es ih =>
    have later : x ∈ deliveredSince es → ∃ batch, .delivered batch ∈ e :: es ∧
        batchPosition? batch = some x :=
      fun hx => by
        obtain ⟨batch, hm, hb⟩ := ih hx
        exact ⟨batch, List.mem_cons_of_mem _ hm, hb⟩
    cases e with
    | delivered batch =>
      rcases List.mem_append.mp hx with hx | hx
      · exact ⟨batch, List.mem_cons_self, Option.mem_toList.mp hx⟩
      · exact later hx
    | committed n => cases hx
    | _ => exact later hx

/-- The positions that a run owes, as a writer keeps them. -/
def owedPositions (es : List Event) : Positions :=
  Positions.recordAll [] (deliveredSince es)

/-- A run owes a position if it delivered one. -/
theorem owedPositions_eq_nil_iff {es : List Event} :
    owedPositions es = [] ↔ deliveredSince es = [] := by
  refine ⟨fun h => ?_, fun h => by rw [owedPositions, h]; rfl⟩
  cases hd : deliveredSince es with
  | nil => rfl
  | cons x older =>
    rw [owedPositions, hd] at h
    have hget := Positions.get?_record (partitionKey x.1) (Positions.recordAll [] older) x.1 x.2
    change Positions.record x.1 x.2 (Positions.recordAll [] older) = [] at h
    rw [h, if_pos rfl] at hget
    cases hget

/-- What is owed is the same after events that deliver and confirm nothing. -/
theorem owedPositions_owesNothing {newer : List Event} (h : newer.all Event.owesNothing = true)
    (older : List Event) : owedPositions (newer.reverse ++ older) = owedPositions older := by
  rw [owedPositions, deliveredSince_owesNothing (by rwa [List.all_reverse])]
  rfl

/-- What is owed is the same after plain events. -/
theorem owedPositions_plain {newer : List Event} (h : newer.all Event.isPlain = true)
    (older : List Event) :
    owedPositions (newer.reverse ++ older) = owedPositions older :=
  owedPositions_owesNothing (owesNothing_plain h) older

/-! ### Writer and events -/

/-- **How the writer of a run agrees with its events.** What is owed is pending, and while a flush
is outstanding it is set aside; while a batch is delivered, its position is pending besides. -/
structure Ledger (s : Setup) (writes : List Write) (a : Active) (es : List Event) : Prop where
  format : a.writer.format = s.offsetFormat
  settled : a.stage.standing = .settled → a.writer.snapshot = none ∧
    a.writer.pending = owedPositions es
  ahead : ∀ rest batch, a.stage.standing = .ahead rest batch → a.writer.snapshot = none ∧
    a.writer.pending = (owedPositions es).recordAll (batchPosition? batch).toList
  waiting : ∀ n, a.stage.standing = .waiting n → a.writer.pending = [] ∧
    a.writer.snapshot = some (owedPositions es) ∧
    ∃ w, writes[n]? = some w ∧ w.flushId = a.writer.flushId ∧
      w.entries = s.offsetFormat.entriesOf (owedPositions es)

namespace Ledger

variable {s : Setup} {r : Nat} {h h' : Host} {a a' : Active} {es es' : List Event}

/-- The converters of a host are built in. -/
theorem isBuiltIn_offsetFormat (s : Setup) : s.offsetFormat.IsBuiltIn :=
  ⟨⟨_, rfl⟩, _, rfl⟩

/-- At rest the books are settled or closed. -/
theorem of_isRest (hf : a.writer.format = s.offsetFormat) (hrest : a.stage.standing.isRest = true)
    (hs : a.writer.snapshot = none) (hp : a.writer.pending = owedPositions es)
    {writes : List Write} :
    Ledger s writes a es where
  format := hf
  settled _ := ⟨hs, hp⟩
  ahead rest batch hst := by rw [hst] at hrest; cases hrest
  waiting n hst := by rw [hst] at hrest; cases hrest

/-- While a batch is handed over, its position is pending besides. -/
theorem of_ahead {writes : List Write} {rest batch : List Record}
    (hf : a.writer.format = s.offsetFormat) (hst : a.stage.standing = .ahead rest batch)
    (hs : a.writer.snapshot = none)
    (hp : a.writer.pending = (owedPositions es).recordAll (batchPosition? batch).toList) :
    Ledger s writes a es where
  format := hf
  settled h := by rw [hst] at h; cases h
  ahead rest' batch' h := by
    obtain ⟨rfl, rfl⟩ := Standing.ahead.inj (hst.symm.trans h)
    exact ⟨hs, hp⟩
  waiting n h := by rw [hst] at h; cases h

/-- While a flush is waited for, what is owed is set aside. -/
theorem of_waiting {writes : List Write} {n : Nat} {w : Write}
    (hf : a.writer.format = s.offsetFormat) (hst : a.stage.standing = .waiting n)
    (hp : a.writer.pending = []) (hs : a.writer.snapshot = some (owedPositions es))
    (hn : writes[n]? = some w) (hid : w.flushId = a.writer.flushId)
    (hw : w.entries = s.offsetFormat.entriesOf (owedPositions es)) :
    Ledger s writes a es where
  format := hf
  settled h := by rw [hst] at h; cases h
  ahead rest batch h := by rw [hst] at h; cases h
  waiting m h := by
    obtain rfl := Standing.waiting.inj (hst.symm.trans h)
    exact ⟨hp, hs, w, hn, hid, hw⟩

/-- What submitting a snapshot that was just taken leads to. -/
theorem submit_of_beginFlush {w : OffsetWriter} (hf : a.writer.format = s.offsetFormat)
    (hb : a.writer.beginFlush = .ok (some w)) :
    w.submit = (.submitted a.writer.flushId (s.offsetFormat.entriesOf a.writer.pending), w) := by
  obtain ⟨-, hne, rfl⟩ := OffsetWriter.beginFlush_eq_ok_some hb
  obtain ⟨e, rest, hp⟩ := List.exists_cons_of_ne_nil hne
  rw [OffsetWriter.submit]
  simp only [hp, hf, OffsetFormat.entries_eq (isBuiltIn_offsetFormat s)]

/-- **What is owed can be submitted** by a run whose books are settled. -/
theorem submits {writes : List Write} (hl : Ledger s writes a es)
    (hst : a.stage.standing = .settled) (howed : owedPositions es ≠ []) :
    ∃ w, a.writer.beginFlush = .ok (some w) ∧
      w.submit.1 = .submitted a.writer.flushId (s.offsetFormat.entriesOf (owedPositions es)) := by
  obtain ⟨hs, hp⟩ := hl.settled hst
  obtain ⟨w, hb⟩ := OffsetWriter.exists_beginFlush hs (hp ▸ howed)
  exact ⟨w, hb, by rw [submit_of_beginFlush hl.format hb, hp]⟩

/-- **One step keeps the writer in agreement with the events.** -/
theorem books (hl : Ledger s h.writes a es) (hb : Books s r h (.active a) es' (.active a') h') :
    Ledger s h'.writes a' (es'.reverse ++ es) := by
  cases hb with
  | keeps hes hw hno hst' hws =>
    have hsame : ∀ {x : Standing}, x ≠ .closed → a'.stage.standing = x → a.stage.standing = x := by
      intro x hx hst
      rcases hst' with heq | heq
      · rw [← heq, hst]
      · exact absurd (hst.symm.trans heq) hx
    refine ⟨hw ▸ hl.format, ?_, ?_, ?_⟩
    · intro hst
      rw [hw, owedPositions_plain hes]
      exact hl.settled (hsame Standing.noConfusion hst)
    · intro rest batch hst
      rw [hw, owedPositions_plain hes]
      exact hl.ahead rest batch (hsame Standing.noConfusion hst)
    · intro n hst
      exact absurd (hsame Standing.noConfusion hst) (hno n)
  | receives hes hx hw hst hst' hws =>
    obtain ⟨hs, hp⟩ := hl.settled hst
    refine of_ahead (hw ▸ hl.format) hst' (hw ▸ hs) ?_
    rw [hw, owedPositions_plain hes, hx]
    exact congrArg _ hp
  | hands hes _ hw hst hst' hws =>
    obtain ⟨hs, hp⟩ := hl.ahead _ _ hst
    refine of_ahead (hw ▸ hl.format) hst' (hw ▸ hs) ?_
    rw [hw, owedPositions_plain hes]
    exact hp
  | @delivers _ _ batch _ hw hst hst' hws =>
    obtain ⟨hs, hp⟩ := hl.ahead [] batch hst
    refine of_isRest (hw ▸ hl.format) (by rw [hst']; rfl) (hw ▸ hs) ?_
    rw [hw, hp]
    exact (List.foldr_append).symm
  | @submits _ _ es₀ _ w flushId entries hes hbegin hs hst hst' hws =>
    obtain ⟨-, hp⟩ := hl.settled hst
    rw [submit_of_beginFlush hl.format hbegin] at hs
    obtain ⟨hsub, hw⟩ := Prod.mk.inj hs
    obtain ⟨rfl, rfl⟩ := Submission.submitted.inj hsub
    obtain ⟨-, -, rfl⟩ := OffsetWriter.beginFlush_eq_ok_some hbegin
    have howed : owedPositions ((es₀ ++ [Event.submitted h.writes.length
        (s.offsetFormat.entriesOf a.writer.pending)]).reverse ++ es) = owedPositions es := by
      rw [List.reverse_append, List.append_assoc, List.reverse_singleton, List.singleton_append]
      exact owedPositions_plain hes es
    refine of_waiting (hw ▸ hl.format) hst' (hw ▸ rfl) ?_
      (w := { run := r, flushId := a.writer.flushId
              entries := s.offsetFormat.entriesOf a.writer.pending }) ?_ (hw ▸ rfl) ?_
    · rw [← hw, howed]
      exact congrArg some hp
    · rw [hws, List.getElem?_concat_length]
    · rw [howed]
      exact congrArg s.offsetFormat.entriesOf hp
  | refuses hes hbegin hs hno =>
    rw [submit_of_beginFlush hl.format hbegin] at hno
    exact absurd rfl (hno _ _)
  | @commits _ _ es₀ _ n write hes hn hok hw hst hst' hws =>
    obtain ⟨hp, hs, w, hwn, hid, -⟩ := hl.waiting n hst
    obtain rfl := Option.some.inj (hwn.symm.trans hn)
    rw [hid, OffsetWriter.complete?_flushId hs, Option.getD_some] at hw
    refine of_isRest (by rw [hw]; exact hl.format) hst' (by rw [hw]) ?_
    rw [hw, List.reverse_append]
    exact hp
  | givesUp hes hw hst hst' hws =>
    obtain ⟨hp, hs, -⟩ := hl.waiting _ hst
    rw [OffsetWriter.cancelFlush_eq hs, hp] at hw
    refine of_isRest (by rw [hw]; exact hl.format) hst' (by rw [hw]) ?_
    rw [hw, owedPositions_plain hes]
    rfl

/-- A run opens its books with nothing owed. -/
theorem opens (hb : Books s r h .requested es' (.active a') h') :
    Ledger s h'.writes a' es'.reverse := by
  cases hb with
  | opens hes hw hst hws =>
    refine of_isRest (by rw [hw]) (by rw [hst]; rfl) (by rw [hw]) ?_
    rw [hw, ← List.append_nil es'.reverse, owedPositions_plain hes]
    rfl

/-- The books do not depend on how far the writes are. -/
theorem of_writes {writes writes' : List Write} (hl : Ledger s writes a es)
    (hw : ∀ (n : Nat) (w : Write), writes[n]? = some w →
      ∃ status, writes'[n]? = some { w with status }) :
    Ledger s writes' a es where
  format := hl.format
  settled := hl.settled
  ahead := hl.ahead
  waiting n hst := by
    obtain ⟨hp, hs, w, hn, hid, hes⟩ := hl.waiting n hst
    obtain ⟨status, hn'⟩ := hw n w hn
    exact ⟨hp, hs, _, hn', hid, hes⟩

/-- The books depend on what is owed alone. -/
theorem of_owed {writes : List Write} (hl : Ledger s writes a es)
    (hes : owedPositions es' = owedPositions es) :
    Ledger s writes a es' where
  format := hl.format
  settled := hes ▸ hl.settled
  ahead := hes ▸ hl.ahead
  waiting := hes ▸ hl.waiting

end Ledger

/-! ### The whole history -/

/-- Whether entries that are submitted are those of the positions that their run owes. -/
def SubmitsOwed (s : Setup) (x : HistoryEntry) (earlier : List HistoryEntry) : Prop :=
  ∀ n entries, x.event = .submitted n entries →
    entries = s.offsetFormat.entriesOf (owedPositions (eventsOf x.run earlier))

/-- Whether entries that reach the store were submitted under the same number. -/
def SetsSubmitted (x : HistoryEntry) (earlier : List HistoryEntry) : Prop :=
  ∀ n entries, x.event = .setInStore n entries → .submitted n entries ∈ eventsOf x.run earlier

namespace Host

variable {s : Setup} {r n : Nat} {h h' h₀ h₁ : Host} {st st' : RunStatus} {es : List Event}

/-- **The books of all runs are in order**, and so were they whenever a flush was submitted. -/
structure Booked (s : Setup) (h : Host) : Prop where
  ledger : ∀ r a, h.status? r = some (.active a) → Ledger s h.writes a (eventsOf r h.history)
  submitted : Throughout (SubmitsOwed s) h.history
  written : ∀ n w, h.writes[n]? = some w → .submitted n w.entries ∈ eventsOf w.run h.history
  set : Throughout SetsSubmitted h.history

/-- A fresh host has no books. -/
theorem Fresh.booked (hf : h.Fresh) : h.Booked s where
  ledger r a hst := by rw [hf.status?] at hst; cases hst
  submitted := by rw [hf.history]; trivial
  written n w hn := by rw [hf.writes] at hn; cases hn
  set := by rw [hf.history]; trivial

/-- A move that is no step keeps the books. -/
theorem Booked.rests (hb : h.Booked s) (hr : h.Rests h') : h'.Booked s where
  ledger r a hst := by
    rw [hr.writes, hr.history]
    exact hb.ledger r a (hr.active hst)
  submitted := hr.history ▸ hb.submitted
  written n w hn := by
    rw [hr.writes] at hn
    rw [hr.history]
    exact hb.written n w hn
  set := hr.history ▸ hb.set

/-- What a run owes is not changed by the turns of its writes. -/
theorem WriteTurns.owedPositions_eq {write : Write} {status : WriteStatus}
    (hw : h.WriteTurns n write status es h') (r : Nat) :
    owedPositions (eventsOf r h'.history) = owedPositions (eventsOf r h.history) := by
  by_cases hr : write.run = r
  · rw [← hr, hw.adds.eventsOf_self]
    refine owedPositions_owesNothing (List.all_eq_true.mpr fun e he => ?_) _
    obtain rfl | ⟨_, rfl⟩ | rfl := hw.events e he <;> rfl
  · rw [hw.adds.eventsOf_of_ne hr]

/-- A turn of a write keeps the books: it only sets what was submitted. -/
theorem Booked.write {write : Write} {status : WriteStatus} (hb : h.Booked s)
    (hw : h.WriteTurns n write status es h') : h'.Booked s where
  ledger r a hst := by
    rw [hw.status?] at hst
    exact ((hb.ledger r a hst).of_owed (hw.owedPositions_eq r)).of_writes fun m w => hw.kept
  submitted := by
    refine hb.submitted.adds hw.adds ?_
    intro e he older m entries heq
    obtain rfl | ⟨_, rfl⟩ | rfl := hw.events e he <;> cases heq
  written m w hm := by
    obtain ⟨status₀, hm₀⟩ := hw.was hm
    have hold := hb.written m _ hm₀
    exact hw.adds.mem_eventsOf hold
  set := by
    refine hb.set.adds hw.adds ?_
    intro e he between m entries heq
    obtain rfl | ⟨_, rfl⟩ | rfl := hw.events e he
    · obtain ⟨rfl, rfl⟩ := Event.setInStore.inj heq
      rw [eventsOf_append]
      exact List.mem_append_right _ (hb.written n write hw.found)
    · cases heq
    · cases heq

/-- What a step submits is what its run owes. -/
theorem Booked.submitsOwed (hb : h.Booked s) (hst : h.status? r = some st)
    (hact : h.Act s r st es st' h₁) : Throughout (SubmitsOwed s) h₁.history := by
  by_cases hsub : ∃ n entries, .submitted n entries ∈ es
  · obtain ⟨n, entries, hm⟩ := hsub
    obtain ⟨a, es₀, w, flushId, rfl, hstand, hes, rfl, hbegin, hs⟩ := hact.books.of_submitted hm
    have hl := hb.ledger r a hst
    rw [Ledger.submit_of_beginFlush hl.format hbegin, (hl.settled hstand).2] at hs
    obtain ⟨-, rfl⟩ := Submission.submitted.inj hs
    rw [hact.adds.history, List.map_append, List.reverse_append]
    refine ⟨?_, hb.submitted.append fun x hx between m entries' heq => ?_⟩
    · intro m entries' heq
      obtain ⟨-, rfl⟩ := Event.submitted.inj heq
      change _ = s.offsetFormat.entriesOf
        (owedPositions (eventsOf r ((es₀.map (HistoryEntry.mk r h.now)).reverse ++ h.history)))
      rw [eventsOf_append, ← List.map_reverse, eventsOf_map_self, owedPositions_plain hes]
    · obtain ⟨e, he, rfl⟩ := List.mem_map.mp (List.mem_reverse.mp hx)
      cases heq
      cases List.all_eq_true.mp hes _ he
  · refine hb.submitted.adds hact.adds ?_
    intro e he between m entries heq
    exact absurd ⟨m, entries, heq ▸ he⟩ hsub

/-- A step of a run keeps the books. -/
theorem Booked.act (hb : h.Booked s) (hat : h.AllTraced s) (hst : h.status? r = some st)
    (hlive : ∀ o, st ≠ .ended o) (hact : h.Act s r st es st' h₁) :
    (h₁.setStatus r st').Booked s where
  ledger r' a hr' := by
    change Ledger s h₁.writes a (eventsOf r' h₁.history)
    rw [hact.status? hst] at hr'
    split at hr'
    · rename_i hr
      subst hr
      obtain rfl := Option.some.inj hr'
      rw [hact.adds.eventsOf_self]
      cases st with
      | requested =>
        have hnone : (eventsOf r h.history).reverse = [] := hat.traced r _ hst
        rw [List.reverse_eq_nil_iff.mp hnone, List.append_nil]
        exact Ledger.opens hact.books
      | active b => exact (hb.ledger r b hst).books hact.books
      | ended outcome => exact absurd rfl (hlive outcome)
    · rename_i hr
      rw [hact.adds.eventsOf_of_ne hr]
      exact (hb.ledger r' a hr').of_writes fun n w hn => hact.books.kept hn
  submitted := by
    change Throughout (SubmitsOwed s) h₁.history
    exact hb.submitsOwed hst hact
  written n w hn := by
    change _ ∈ eventsOf w.run h₁.history
    obtain ⟨w₀, hn₀, hrun, hentries⟩ | ⟨hrun, hm⟩ := hact.books.written hn
    · have := hact.adds.mem_eventsOf (hb.written n w₀ hn₀)
      rwa [hrun, hentries] at this
    · rw [hrun]
      exact hact.adds.mem_eventsOf_self hm
  set := by
    change Throughout SetsSubmitted h₁.history
    refine hb.set.adds hact.adds ?_
    intro e he between m entries heq
    obtain rfl : e = .setInStore m entries := heq
    exact absurd he hact.books.setInStore_not_mem

/-- **The books are in order** in a host that was fresh. -/
theorem Reaches.booked (hf : h₀.Fresh) (hr : Reaches s h₀ h) : h.Booked s := by
  induction hr with
  | refl => exact hf.booked
  | tail hr hm ih =>
    exact hm.elim ih.rests (fun _ _ _ _ => ih.write)
      fun _ _ _ _ _ _ hst hlive hact heq => heq ▸ ih.act (Reaches.allTraced hf hr) hst hlive hact

/-- What a run has submitted is what it owed. -/
theorem Booked.entries_eq (hb : h.Booked s) {later older : List Event} {entries : Entries}
    (heq : eventsOf r h.history = later ++ .submitted n entries :: older) :
    entries = s.offsetFormat.entriesOf (owedPositions older) := by
  obtain ⟨later, now, earlier, hhistory, -, rfl⟩ := exists_of_eventsOf_eq heq
  have hsubmitted : Throughout (SubmitsOwed s)
      (later ++ ⟨r, now, .submitted n entries⟩ :: earlier) := hhistory ▸ hb.submitted
  exact hsubmitted.split n entries rfl

/-! ### The content of every flush -/

/-- Whether the last records of all delivered batches have partitions with whole numbers. -/
def DeliversWhole (history : List HistoryEntry) : Prop :=
  ∀ r batch x, .delivered batch ∈ eventsOf r history → batchPosition? batch = some x → IsWhole x.1

/-- Whether events deliver a batch whose position has a key and a value. -/
def DeliversEntry (f : OffsetFormat) (es : List Event) (key value : Bytes) : Prop :=
  ∃ batch p o, .delivered batch ∈ es ∧ batchPosition? batch = some (p, o) ∧ key = f.keyBytes p ∧
    value = OffsetFormat.valueBytes o

/-- What was delivered has an entry. -/
theorem DeliversEntry.of_mem {f : OffsetFormat} {es : List Event} {p : Partition} {o : Offset}
    (h : (p, o) ∈ deliveredSince es) :
    DeliversEntry f es (f.keyBytes p) (OffsetFormat.valueBytes o) := by
  obtain ⟨batch, hm, hb⟩ := exists_of_mem_deliveredSince h
  exact ⟨batch, p, o, hm, hb, rfl, rfl⟩

/-- While no flush is confirmed, no partition is dropped, and no older offset comes back. -/
theorem entriesOf_owed_of_not_mem {f : OffsetFormat} {newer older : List Event}
    (hno : ∀ n, .committed n ∉ newer) {key value : Bytes}
    (hm : (key, value) ∈ f.entriesOf (owedPositions older)) :
    ∃ value', (key, value') ∈ f.entriesOf (owedPositions (newer ++ older)) ∧
      (value' = value ∨ DeliversEntry f newer key value') := by
  have hold := (f.sorted_entriesOf (owedPositions older)).get?_eq_some_iff.mpr hm
  obtain ⟨x, -, rfl⟩ := OffsetFormat.exists_of_mem_entriesOf hm
  rw [owedPositions, OffsetFormat.get?_entriesOf_recordAll, Option.map_eq_some_iff] at hold
  obtain ⟨y, hold, rfl⟩ := hold
  have hget : Dictionary.get? (f.keyBytes x.2.1) (f.entriesOf (owedPositions (newer ++ older))) =
      ((Positions.latest? (partitionKey x.2.1) (deliveredSince newer)).or (some y)).map
        fun z => OffsetFormat.valueBytes z.2 := by
    rw [owedPositions, OffsetFormat.get?_entriesOf_recordAll, deliveredSince_append hno,
      Positions.latest?, List.find?_append]
    exact congrArg (fun z => Option.map _ (Option.or _ z)) hold
  have hmem : ∀ {value'}, Dictionary.get? (f.keyBytes x.2.1)
      (f.entriesOf (owedPositions (newer ++ older))) = some value' →
      (f.keyBytes x.2.1, value') ∈ f.entriesOf (owedPositions (newer ++ older)) :=
    fun h => (f.sorted_entriesOf _).get?_eq_some_iff.mp h
  cases hnew : Positions.latest? (partitionKey x.2.1) (deliveredSince newer) with
  | none =>
    rw [hnew] at hget
    exact ⟨_, hmem hget, .inl rfl⟩
  | some z =>
    obtain ⟨q, o⟩ := z
    rw [hnew] at hget
    have hkey : f.keyBytes q = f.keyBytes x.2.1 := by
      refine OffsetFormat.keyBytes_eq_iff.mpr ?_
      simpa using List.find?_some hnew
    refine ⟨_, hmem hget, .inr ?_⟩
    rw [← hkey]
    exact .of_mem (List.mem_of_find?_eq_some hnew)

/-- After a confirmed flush, only what was delivered since the last of them is carried. -/
theorem deliversEntry_of_mem {f : OffsetFormat} {newer older : List Event} {n : Nat}
    (hw : ∀ x ∈ deliveredSince (newer ++ older), IsWhole x.1) (hc : .committed n ∈ newer)
    {key value : Bytes} (hm : (key, value) ∈ f.entriesOf (owedPositions (newer ++ older))) :
    DeliversEntry f newer key value := by
  obtain ⟨p, o, hfound, rfl, rfl⟩ := (OffsetFormat.mem_entriesOf_recordAll hw).mp hm
  have hmem := List.mem_of_find?_eq_some hfound
  rw [deliveredSince_append_of_mem hc] at hmem
  exact .of_mem hmem

/-- **The exact content of every flush.** Whenever a run submits entries to its store, they are
sorted and are one entry for each partition that was that of the last record of some batch delivered
by this run since its last confirmed flush, or since it began, with the offset of the latest of
these batches. Entries that reach the store are always some that were submitted, and the records of
a batch that counts as delivered were all taken by the consumer.

In particular, while no flush is confirmed the next one carries every partition of the last one,
with the same offset or one that was delivered since; and after a confirmed flush the next one
carries only what was delivered since then. -/
theorem Reaches.submitted_iff (hf : h₀.Fresh) (hr : Reaches s h₀ h) (hw : DeliversWhole h.history) :
    (∀ later r t n es earlier, h.history = later ++ ⟨r, t, .submitted n es⟩ :: earlier →
      Dictionary.Sorted es ∧
      (∀ key value, (key, value) ∈ es ↔
        ∃ p o, ((deliveredSince (eventsOf r earlier)).find? fun x => x.1 = p) = some (p, o) ∧
          key = s.offsetFormat.keyBytes p ∧ value = OffsetFormat.valueBytes o) ∧
      ∀ between t' n' es' before, earlier = between ++ ⟨r, t', .submitted n' es'⟩ :: before →
        ((∀ m, .committed m ∉ eventsOf r between) → ∀ key value, (key, value) ∈ es' →
          ∃ value', (key, value') ∈ es ∧
            (value' = value ∨ DeliversEntry s.offsetFormat (eventsOf r between) key value')) ∧
        (∀ m, .committed m ∈ eventsOf r between → ∀ key value, (key, value) ∈ es →
          DeliversEntry s.offsetFormat (eventsOf r between) key value)) ∧
    (∀ later r t n es earlier, h.history = later ++ ⟨r, t, .setInStore n es⟩ :: earlier →
      .submitted n es ∈ eventsOf r earlier) ∧
    ∀ later r t batch earlier, h.history = later ++ ⟨r, t, .delivered batch⟩ :: earlier →
      ∀ x ∈ batch, .taken x ∈ eventsOf r earlier := by
  have hb := Reaches.booked hf hr
  have content : ∀ {later r t n es earlier},
      h.history = later ++ ⟨r, t, .submitted n es⟩ :: earlier →
      es = s.offsetFormat.entriesOf (owedPositions (eventsOf r earlier)) ∧
      ∀ x ∈ deliveredSince (eventsOf r earlier), IsWhole x.1 := by
    intro later r t n es earlier heq
    have hsub : Throughout (SubmitsOwed s) (later ++ ⟨r, t, .submitted n es⟩ :: earlier) :=
      heq ▸ hb.submitted
    refine ⟨hsub.split n es rfl, fun x hx => ?_⟩
    obtain ⟨batch, hm, hx⟩ := exists_of_mem_deliveredSince hx
    refine hw r batch x ?_ hx
    obtain ⟨now, hm⟩ := mem_eventsOf.mp hm
    refine mem_eventsOf.mpr ⟨now, ?_⟩
    rw [heq]
    exact List.mem_append_right _ (List.mem_cons_of_mem _ hm)
  refine ⟨fun later r t n es earlier heq => ?_, fun later r t n es earlier heq => ?_,
    fun later r t batch earlier heq => ?_⟩
  · obtain ⟨hes, hwhole⟩ := content heq
    refine ⟨hes ▸ OffsetFormat.sorted_entriesOf _ _, ?_, ?_⟩
    · intro key value
      rw [hes]
      exact OffsetFormat.mem_entriesOf_recordAll hwhole
    · rintro between t' n' es' before rfl
      have heq' : h.history = (later ++ ⟨r, t, .submitted n es⟩ :: between) ++
          ⟨r, t', .submitted n' es'⟩ :: before := by
        rw [heq, List.append_assoc, List.cons_append]
      obtain ⟨hes', -⟩ := content heq'
      have hsplit : eventsOf r (between ++ ⟨r, t', .submitted n' es'⟩ :: before) =
          eventsOf r between ++ .submitted n' es' :: eventsOf r before := by
        rw [eventsOf_append]
        simp [eventsOf]
      rw [hsplit] at hes hwhole
      have howed : owedPositions (eventsOf r before) =
          owedPositions (.submitted n' es' :: eventsOf r before) := rfl
      rw [hes]
      refine ⟨fun hno key value hm => ?_,
        fun m hc key value hm => deliversEntry_of_mem hwhole hc hm⟩
      rw [hes', howed] at hm
      exact entriesOf_owed_of_not_mem hno hm
  · have hset : Throughout SetsSubmitted (later ++ ⟨r, t, .setInStore n es⟩ :: earlier) :=
      heq ▸ hb.set
    exact hset.split n es rfl
  · exact Reaches.delivers_taken hf hr heq batch rfl

/-- A poll gives one batch, and its position is flushed. -/
theorem submitted_after_batch :
    let s : Setup :=
      { config := { name := "engine", connectorClass := "source", flushTimeout := 5000
                    keyConverter := .json, valueConverter := .json, properties := [] }
        registry := Registry.empty.register "source" {}
        consumer := fun _ => {} }
    let x : Record :=
      { partition := [("shard", .number (.integer 1))], offset := [("row", .number (.integer 7))]
        topic := "rows", key := none, value := .null, timestamp := none }
    let h₀ : Host := { feed := [.batch [x]] }
    let h := h₀.request.runOn s 0 10
    ∃ es earlier, h.history = ⟨0, 0, .submitted 0 es⟩ :: earlier ∧
      ∀ key value, (key, value) ∈ es ↔
        ∃ p o, (([(x.partition, x.offset)] : List (Partition × Offset)).find? fun y => y.1 = p) =
          some (p, o) ∧
          key = s.offsetFormat.keyBytes p ∧ value = OffsetFormat.valueBytes o := by
  intro s x h₀ h
  have hf : h₀.Fresh := ⟨rfl, rfl, rfl, rfl⟩
  have hr : Reaches s h₀ h := Reaches.runOn (.tail .refl .request) 0 10
  have hbatch : ∀ e ∈ h.history, ∀ batch, e.event = .delivered batch → batch = [x] := by
    have hall : (h.history.all fun e => match e.event with
        | .delivered batch => batch == [x]
        | _ => true) = true := rfl
    intro e he batch hb
    have := List.all_eq_true.mp hall e he
    simp only [hb] at this
    exact eq_of_beq this
  have hw : DeliversWhole h.history := by
    intro r batch y hm hy
    obtain ⟨now, hm⟩ := mem_eventsOf.mp hm
    rw [hbatch _ hm batch rfl] at hy
    obtain rfl := Option.some.inj hy
    exact ⟨trivial, rfl, trivial⟩
  have heq : ∃ es earlier, h.history = ⟨0, 0, .submitted 0 es⟩ :: earlier ∧
      deliveredSince (eventsOf 0 earlier) = [(x.partition, x.offset)] := ⟨_, _, rfl, rfl⟩
  obtain ⟨es, earlier, heq, hd⟩ := heq
  refine ⟨es, earlier, heq, ?_⟩
  rw [← hd]
  exact ((Reaches.submitted_iff hf hr hw).1 [] 0 0 0 es earlier heq).2.1

end Host

end ChangeCapture
