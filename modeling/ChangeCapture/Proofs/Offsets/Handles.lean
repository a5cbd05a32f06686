import ChangeCapture.Proofs.Offsets.Desk

/-!
# Handles and their snapshots

A flush that is submitted hands out the number of the writer's next flush, which several handles of
one snapshot share. The number goes up whenever a snapshot leaves the writer, completed or given up,
and at no other time: it is the number of snapshots taken, but for the one that is outstanding. So a
number tells the snapshot that its handles were made from.

## Main definitions

* `LoggedWriter.Numbered`: the number of the next flush counts the snapshots that have left.
* `Desk.outstanding?`: which of the snapshots taken is outstanding.

## Main results

* `LoggedWriter.Numbered.call` — every call keeps the count.
* `LoggedWriter.leaves_or_stays` — a snapshot stays under its number, or the number is past.
* `Desk.complete_iff_outstanding` — flush numbers are never confused.
-/

namespace ChangeCapture

namespace LoggedWriter

variable {l : LoggedWriter} {cs : List WriterCall}

/-! ### Counting snapshots -/

/-- **The number of the next flush** is that of the snapshots that were taken and have left. -/
def Numbered (l : LoggedWriter) : Prop :=
  l.writer.flushId + l.writer.inProgress.toNat = l.log.count .taken

/-- **Every call keeps the count.** -/
theorem Numbered.call (h : l.Numbered) (hv : l.writer.Valid) (c : WriterCall) :
    (l.call c).Numbered := by
  rw [Numbered, OffsetWriter.inProgress] at h
  obtain heq | ⟨p, o, -, heq⟩ | ⟨w, hb, heq⟩ | ⟨⟨s, hs⟩, heq⟩ | ⟨id, w, s, hc, hs, heq⟩ :=
    call_cases hv c <;> rw [heq, Numbered, OffsetWriter.inProgress]
  · exact h
  · simpa [OffsetWriter.record] using h
  · obtain ⟨hnone, -, rfl⟩ := OffsetWriter.beginFlush_eq_ok_some hb
    simp only [hnone] at h
    simpa using h
  · rw [OffsetWriter.cancelFlush_eq hs]
    simp only [hs] at h
    simpa using h
  · obtain ⟨-, -, -, rfl⟩ := OffsetWriter.complete?_eq_some hc
    simp only [hs] at h
    simpa using h

/-- The count holds after any calls of a new writer. -/
theorem numbered_calls (f : OffsetFormat) (cs : List WriterCall) :
    ((new f).calls cs).Numbered := by
  have hall : ((new f).calls cs).Consistent ∧ ((new f).calls cs).Numbered :=
    calls_induction (motive := fun l => l.Consistent ∧ l.Numbered)
      (fun l c _ h => ⟨h.1.call c, h.2.call h.1.valid c⟩) ⟨.new f, rfl⟩
  exact hall.2

/-! ### What becomes of a snapshot -/

/-- The number of the next flush never goes down. -/
theorem flushId_le_calls (h : l.Consistent) (cs : List WriterCall) :
    l.writer.flushId ≤ (l.calls cs).writer.flushId := by
  have hall : (l.calls cs).Consistent ∧ l.writer.flushId ≤ (l.calls cs).writer.flushId := by
    refine calls_induction (motive := fun l' =>
      l'.Consistent ∧ l.writer.flushId ≤ l'.writer.flushId) ?_ ⟨h, Nat.le_refl _⟩
    rintro l' c - ⟨hcon, hle⟩
    refine ⟨hcon.call c, hle.trans ?_⟩
    obtain heq | ⟨p, o, -, heq⟩ | ⟨w, hb, heq⟩ | ⟨⟨s, hs⟩, heq⟩ | ⟨id, w, s, hc, -, heq⟩ :=
      call_cases hcon.valid c <;> rw [heq]
    · rfl
    · obtain ⟨-, -, rfl⟩ := OffsetWriter.beginFlush_eq_ok_some hb
      rfl
    · rw [OffsetWriter.cancelFlush_eq hs]
      exact Nat.le_succ _
    · obtain ⟨-, -, -, rfl⟩ := OffsetWriter.complete?_eq_some hc
      exact Nat.le_succ _
  exact hall.2

/-- **A snapshot stays under its number**, or the number is past. -/
theorem leaves_or_stays (h : l.Consistent) {s : Positions} (hs : l.writer.snapshot = some s)
    (cs : List WriterCall) :
    (l.calls cs).writer.snapshot = some s ∧
        (l.calls cs).writer.flushId = l.writer.flushId ∨
      l.writer.flushId < (l.calls cs).writer.flushId := by
  induction cs generalizing l with
  | nil => exact .inl ⟨hs, rfl⟩
  | cons c cs ih =>
    have hcalls : l.calls (c :: cs) = (l.call c).calls cs := rfl
    have hle := flushId_le_calls (h.call c) cs
    rw [hcalls]
    obtain heq | ⟨p, o, -, heq⟩ | ⟨w, hb, heq⟩ | ⟨-, heq⟩ | ⟨id, w, s, hc, -, heq⟩ :=
      call_cases h.valid c
    · rw [heq]
      exact ih h hs
    · have hrest := ih (h.call c) (by rw [heq]; exact hs)
      rw [heq] at hrest ⊢
      exact hrest
    · obtain ⟨hnone, -, -⟩ := OffsetWriter.beginFlush_eq_ok_some hb
      rw [hs] at hnone
      cases hnone
    · rw [heq, OffsetWriter.cancelFlush_eq hs] at hle
      rw [heq, OffsetWriter.cancelFlush_eq hs]
      exact .inr hle
    · obtain ⟨-, -, -, rfl⟩ := OffsetWriter.complete?_eq_some hc
      rw [heq] at hle ⊢
      exact .inr hle

end LoggedWriter

namespace Desk

variable {f : OffsetFormat} {d : Desk} {id : Nat}

/-! ### Handles -/

/-- A handle has the number of the next flush, and is made from an outstanding snapshot. -/
theorem flush_eq_ok_some (hv : d.writer.Valid) (h : d.flush.1 = .ok (some id)) :
    id = d.writer.flushId ∧ d.writer.inProgress = true := by
  obtain ⟨-, hs⟩ | ⟨s, e, -, -, hs⟩ | ⟨s, es, hsnapshot, -, hs⟩ := OffsetWriter.submit_cases hv <;>
    rw [flush, hs] at h
  · cases h
  · cases h
  · exact ⟨(Option.some.inj (Except.ok.inj h)).symm,
      by rw [OffsetWriter.inProgress, hsnapshot]; rfl⟩

/-- **What completing a flush takes**: its number is the next, and a snapshot is outstanding. -/
theorem complete_eq_true (d : Desk) (id : Nat) :
    (d.complete id).1 = true ↔ id = d.writer.flushId ∧ d.writer.inProgress = true := by
  rw [complete, OffsetWriter.complete?, OffsetWriter.inProgress]
  cases d.writer.snapshot with
  | none => simp
  | some s => by_cases hid : id = d.writer.flushId <;> simp [hid]

/-- A flush that is not completed leaves the writer. -/
theorem writer_complete_of_eq_false (h : (d.complete id).1 = false) :
    (d.complete id).2.writer = d.writer := by
  rw [complete] at h ⊢
  split at h
  · cases h
  · rfl

/-! ### Snapshots by number -/

/-- **Which of the snapshots taken is outstanding** after some moves; they are numbered from one. -/
def outstanding? (d : Desk) (moves : List DeskMove) : Option Nat :=
  if (d.follow moves).writer.inProgress then some ((d.marks moves).count .taken) else none

/-- The writer of a desk, with its log. -/
theorem exists_logged (hnew : d.writer = { format := f }) (moves : List DeskMove) :
    (d.follow moves).writer =
        ((LoggedWriter.new f).calls (moves.filterMap DeskMove.call?)).writer ∧
      d.marks moves = ((LoggedWriter.new f).calls (moves.filterMap DeskMove.call?)).log := by
  rw [writer_follow d moves [], marks, hnew]
  exact ⟨rfl, rfl⟩

/-- The writer of a desk is in order. -/
theorem valid_follow (hnew : d.writer = { format := f }) (moves : List DeskMove) :
    (d.follow moves).writer.Valid := by
  rw [(exists_logged hnew moves).1]
  exact ((LoggedWriter.Consistent.new f).calls _).valid

/-- The number of the next flush tells which snapshot is outstanding. -/
theorem outstanding?_eq_some (hnew : d.writer = { format := f }) {moves : List DeskMove} {k : Nat} :
    d.outstanding? moves = some k ↔
      (d.follow moves).writer.inProgress = true ∧ k = (d.follow moves).writer.flushId + 1 := by
  obtain ⟨hwriter, hmarks⟩ := exists_logged hnew moves
  have hnumbered := LoggedWriter.numbered_calls f (moves.filterMap DeskMove.call?)
  rw [LoggedWriter.Numbered, ← hwriter, ← hmarks] at hnumbered
  rw [outstanding?, ← hnumbered]
  cases (d.follow moves).writer.inProgress with
  | false => simp
  | true => simp [eq_comm]

/-- Later moves are further calls of the writer. -/
theorem exists_later {before later : List DeskMove} (h : before <+: later) :
    ∃ cs, (LoggedWriter.new f).calls (later.filterMap DeskMove.call?) =
      ((LoggedWriter.new f).calls (before.filterMap DeskMove.call?)).calls cs := by
  obtain ⟨rest, rfl⟩ := h
  exact ⟨rest.filterMap DeskMove.call?, by
    rw [List.filterMap_append, LoggedWriter.calls, List.foldl_append]; rfl⟩

/-- The number of the next flush never goes down. -/
theorem flushId_le_follow (hnew : d.writer = { format := f }) {before later : List DeskMove}
    (h : before <+: later) :
    (d.follow before).writer.flushId ≤ (d.follow later).writer.flushId := by
  obtain ⟨cs, hcs⟩ := exists_later (f := f) h
  rw [(exists_logged hnew before).1, (exists_logged hnew later).1, hcs]
  exact LoggedWriter.flushId_le_calls ((LoggedWriter.Consistent.new f).calls _) cs

/-- One snapshot is the same as long as it is outstanding. -/
theorem snapshot_eq_of_outstanding (hnew : d.writer = { format := f })
    {before later : List DeskMove} {k : Nat} (h : before <+: later)
    (hbefore : d.outstanding? before = some k) (hlater : d.outstanding? later = some k) :
    (d.follow later).writer.snapshot = (d.follow before).writer.snapshot := by
  obtain ⟨hprogress, hk⟩ := (outstanding?_eq_some hnew).mp hbefore
  obtain ⟨-, hk'⟩ := (outstanding?_eq_some hnew).mp hlater
  obtain ⟨s, hs⟩ := Option.isSome_iff_exists.mp hprogress
  obtain ⟨cs, hcs⟩ := exists_later (f := f) h
  rw [(exists_logged hnew before).1] at hk hs ⊢
  rw [(exists_logged hnew later).1, hcs] at hk' ⊢
  have hcon := (LoggedWriter.Consistent.new f).calls (before.filterMap DeskMove.call?)
  rcases LoggedWriter.leaves_or_stays hcon hs cs with ⟨hstays, -⟩ | hleaves
  · rw [hstays, hs]
  · omega

/-- A completed flush is past its number. -/
theorem flushId_lt_of_complete (hnew : d.writer = { format := f }) {moves : List DeskMove}
    {m m' : Nat} (hm : moves[m]? = some (.call (.complete id)))
    (hdone : ((d.follow (moves.take m)).complete id).1 = true) (h : m < m') :
    id < (d.follow (moves.take m')).writer.flushId := by
  obtain ⟨hid, hprogress⟩ := (complete_eq_true _ _).mp hdone
  obtain ⟨s, hs⟩ := Option.isSome_iff_exists.mp hprogress
  have hnext : d.follow (moves.take (m + 1)) = ((d.follow (moves.take m)).complete id).2 := by
    rw [List.take_add_one, hm, follow_append]
    rfl
  have hflushId : (d.follow (moves.take (m + 1))).writer.flushId = id + 1 := by
    rw [hnext, complete, hid, OffsetWriter.complete?_flushId hs]
  have hle := flushId_le_follow hnew
    (List.take_prefix_take_left (show m + 1 ≤ m' from h) : moves.take (m + 1) <+: moves.take m')
  omega

/-- **Flush numbers are never confused.** Whatever is asked of a writer in whatever order, and
whether or not its positions can be written, a number that is handed out belongs to the snapshot
outstanding at that moment. Completing a flush of this number succeeds exactly while that snapshot
is outstanding, with the positions it had, and so at most once; at every other moment it leaves the
writer as it is. Two handles have the same number exactly if they are made from the same
snapshot. -/
theorem complete_iff_outstanding (hnew : d.writer = { format := f }) (moves : List DeskMove)
    {n : Nat} (hhandle : (d.follow (moves.take n)).flush.1 = .ok (some id)) :
    ∃ k, d.outstanding? (moves.take n) = some k ∧
      (∀ m, ((d.follow (moves.take m)).complete id).1 = true ↔
        d.outstanding? (moves.take m) = some k) ∧
      (∀ m, d.outstanding? (moves.take m) = some k →
        (d.follow (moves.take m)).writer.snapshot = (d.follow (moves.take n)).writer.snapshot) ∧
      (∀ m, ((d.follow (moves.take m)).complete id).1 = false →
        ((d.follow (moves.take m)).complete id).2.writer = (d.follow (moves.take m)).writer) ∧
      (∀ m m', moves[m]? = some (.call (.complete id)) →
        moves[m']? = some (.call (.complete id)) →
        ((d.follow (moves.take m)).complete id).1 = true →
        ((d.follow (moves.take m')).complete id).1 = true → m = m') ∧
      ∀ n' id', (d.follow (moves.take n')).flush.1 = .ok (some id') →
        (id' = id ↔ d.outstanding? (moves.take n') = some k) := by
  obtain ⟨hid, hprogress⟩ := flush_eq_ok_some (valid_follow hnew _) hhandle
  have hout := (outstanding?_eq_some hnew).mpr ⟨hprogress, rfl⟩
  -- A prefix of the moves comes before another, or the other before it.
  have hearlier : ∀ {a b : Nat}, a ≤ b → moves.take a <+: moves.take b :=
    fun h => List.take_prefix_take_left h
  have honce : ∀ {m m' : Nat}, moves[m]? = some (.call (.complete id)) →
      ((d.follow (moves.take m)).complete id).1 = true →
      ((d.follow (moves.take m')).complete id).1 = true → ¬ m < m' := by
    intro m m' hm hdone hdone' hlt
    have hpast := flushId_lt_of_complete hnew hm hdone hlt
    have hnext := ((complete_eq_true _ _).mp hdone').1
    omega
  refine ⟨_, hout, fun m => ?_, fun m hm => ?_, fun m => writer_complete_of_eq_false,
    fun m m' hm hm' ht ht' => ?_, fun n' id' hn' => ?_⟩
  · rw [complete_eq_true, outstanding?_eq_some hnew, hid, Nat.add_right_cancel_iff, and_comm]
  · rcases Nat.le_total n m with h | h
    · exact snapshot_eq_of_outstanding hnew (hearlier h) hout hm
    · exact (snapshot_eq_of_outstanding hnew (hearlier h) hm hout).symm
  · have := honce hm ht ht'
    have := honce hm' ht' ht
    omega
  · obtain ⟨hid', hprogress'⟩ := flush_eq_ok_some (valid_follow hnew _) hn'
    rw [outstanding?_eq_some hnew, hid, hid', Nat.add_right_cancel_iff, eq_comm]
    simp only [hprogress', true_and]

/-- A flush is cancelled, and its number comes back while the next one is outstanding. -/
theorem complete_iff_outstanding_after_cancel :
    let f : OffsetFormat :=
      { scope := "engine", keys := ConverterKind.json.converter
        values := ConverterKind.json.converter }
    let d : Desk := { store := {}, writer := { format := f } }
    let moves : List DeskMove :=
      [.call (.record [] []), .call .beginFlush, .call .submit, .call .cancelFlush,
        .call .beginFlush, .call .submit, .call (.complete 0), .call (.complete 1),
        .call (.complete 1)]
    (d.follow (moves.take 2)).flush.1 = .ok (some 0) ∧
      (d.follow (moves.take 5)).flush.1 = .ok (some 1) ∧
      d.outstanding? (moves.take 2) = some 1 ∧ d.outstanding? (moves.take 6) = some 2 ∧
      ((d.follow (moves.take 6)).complete 0).1 = false ∧
      ((d.follow (moves.take 7)).complete 1).1 = true := by
  intro f d moves
  have hfirst : (d.follow (moves.take 2)).flush.1 = .ok (some 0) := by decide +kernel
  have hsecond : (d.follow (moves.take 5)).flush.1 = .ok (some 1) := by decide +kernel
  have hout : d.outstanding? (moves.take 2) = some 1 := by decide +kernel
  have hout' : d.outstanding? (moves.take 6) = some 2 := by decide +kernel
  obtain ⟨k, hk, hdone, -⟩ := complete_iff_outstanding (f := f) rfl moves hfirst
  obtain ⟨k', hk', hdone', -⟩ := complete_iff_outstanding (f := f) rfl moves hsecond
  obtain rfl : k = 1 := Option.some.inj (hk.symm.trans hout)
  obtain rfl : k' = 2 := Option.some.inj (hk'.symm.trans (by decide +kernel))
  refine ⟨hfirst, hsecond, hout, hout', ?_, (hdone' 7).mpr (by decide +kernel)⟩
  rw [← Bool.not_eq_true, hdone 6, hout']
  decide

end Desk

end ChangeCapture
