import ChangeCapture.Offsets.Desk
import ChangeCapture.Proofs.Offsets.Key
import ChangeCapture.Proofs.Offsets.Writer

/-!
# No position is lost

Calls of a writer may come in any order, while its background writes go as they like. A log keeps
what came of the calls: positions recorded, snapshots taken, given up, and completed. What a writer
still owes can be read off the log alone — it is what was recorded since the last completed snapshot
was taken — and the uncommitted positions of the writer are always the latest of these.

## Main definitions

* `WriterCall`, `WriterMark`, `LoggedWriter`: calls, what comes of them, and a writer with its log.
* `WriterMark.owed`: the positions that a log leaves uncommitted.
* `DeskMove`, `Desk.follow`: a writer among its background writes.

## Main results

* `LoggedWriter.Consistent.call` — one call keeps writer and log together.
* `Desk.uncommitted_eq_owed` — the writer loses no position and prefers no older one.
-/

namespace ChangeCapture

/-! ### Calls and what comes of them -/

/-- What may be asked of a writer. -/
inductive WriterCall where
  | record (p : Partition) (o : Offset)
  | beginFlush
  | submit
  | complete (flushId : Nat)
  | cancelFlush
  deriving DecidableEq, Repr

/-- What came of a call, as far as positions are concerned. -/
inductive WriterMark where
  /-- A position was recorded. -/
  | recorded (p : Partition) (o : Offset)
  /-- A snapshot was taken. -/
  | taken
  /-- The outstanding snapshot was given up. -/
  | undone
  /-- The outstanding snapshot was let go as committed. -/
  | completed (snapshot : Positions)
  deriving DecidableEq, Repr

namespace WriterMark

/-- The positions recorded since the last snapshot was taken, the newest first. -/
def sinceTaken : List WriterMark → List (Partition × Offset)
  | [] | taken :: _ => []
  | recorded p o :: older => (p, o) :: sinceTaken older
  | undone :: older | completed _ :: older => sinceTaken older

/-- **The positions that a log leaves uncommitted**, the newest first: those recorded since the last
completed snapshot was taken. -/
def owed : List WriterMark → List (Partition × Offset)
  | [] => []
  | recorded p o :: older => (p, o) :: owed older
  | taken :: older | undone :: older => owed older
  | completed _ :: older => sinceTaken older

/-- Whether a log ends with a snapshot outstanding. -/
def outstanding : List WriterMark → Bool
  | [] | undone :: _ | completed _ :: _ => false
  | taken :: _ => true
  | recorded _ _ :: older => outstanding older

/-- The mark of a recorded position. -/
def ofPosition (x : Partition × Offset) : WriterMark :=
  recorded x.1 x.2

/-- Positions recorded last are owed first. -/
theorem owed_append_recorded (newer : List (Partition × Offset)) (older : List WriterMark) :
    owed (newer.map ofPosition ++ older) = newer ++ owed older := by
  induction newer with
  | nil => rfl
  | cons x newer ih => exact congrArg (x :: ·) ih

/-- A position that is owed was recorded. -/
theorem recorded_mem_of_mem_sinceTaken {x : Partition × Offset} {log : List WriterMark}
    (h : x ∈ sinceTaken log) : ofPosition x ∈ log := by
  induction log with
  | nil => cases h
  | cons m log ih =>
    cases m with
    | taken => cases h
    | undone | completed s => exact List.mem_cons_of_mem _ (ih h)
    | recorded p o =>
      rcases List.mem_cons.mp h with rfl | h
      · exact List.mem_cons_self
      · exact List.mem_cons_of_mem _ (ih h)

/-- A position that is owed was recorded. -/
theorem recorded_mem_of_mem_owed {x : Partition × Offset} {log : List WriterMark}
    (h : x ∈ owed log) :
    ofPosition x ∈ log := by
  induction log with
  | nil => cases h
  | cons m log ih =>
    cases m with
    | taken | undone => exact List.mem_cons_of_mem _ (ih h)
    | completed s => exact List.mem_cons_of_mem _ (recorded_mem_of_mem_sinceTaken h)
    | recorded p o =>
      rcases List.mem_cons.mp h with rfl | h
      · exact List.mem_cons_self
      · exact List.mem_cons_of_mem _ (ih h)

end WriterMark

/-- What a call does to a writer, and what comes of it. -/
def OffsetWriter.call (w : OffsetWriter) : WriterCall → OffsetWriter × List WriterMark
  | .record p o => (w.record p o, [.recorded p o])
  | .beginFlush =>
    match w.beginFlush with
    | .ok (some w) => (w, [.taken])
    | .ok none | .error _ => (w, [])
  | .submit =>
    match w.submit with
    | (.refused _, w) => (w, [.undone])
    | (.nothing, w) | (.submitted _ _, w) => (w, [])
  | .complete flushId =>
    match w.complete? flushId with
    | some w' => (w', [.completed (w.snapshot.getD [])])
    | none => (w, [])
  | .cancelFlush => (w.cancelFlush, if w.inProgress then [.undone] else [])

/-- A writer with the log of its calls, the newest mark first. -/
structure LoggedWriter where
  writer : OffsetWriter
  log : List WriterMark := []

namespace LoggedWriter

/-- A writer of a format that has not been called yet. -/
def new (f : OffsetFormat) : LoggedWriter where
  writer := { format := f }

/-- A call is made and logged. -/
def call (l : LoggedWriter) (c : WriterCall) : LoggedWriter where
  writer := (l.writer.call c).1
  log := (l.writer.call c).2 ++ l.log

/-- Calls are made one after the other. -/
def calls (l : LoggedWriter) (cs : List WriterCall) : LoggedWriter :=
  cs.foldl call l

/-- What every call keeps holds after any calls. -/
theorem calls_induction {motive : LoggedWriter → Prop} {cs : List WriterCall}
    (step : ∀ l, ∀ c ∈ cs, motive l → motive (l.call c)) {l : LoggedWriter} (start : motive l) :
    motive (l.calls cs) := by
  induction cs generalizing l with
  | nil => exact start
  | cons c cs ih =>
    exact ih (fun l c hc => step l c (List.mem_cons_of_mem _ hc))
      (step l c List.mem_cons_self start)

/-- **What a call can do** to a valid writer: change nothing, record a position, take a snapshot,
give the outstanding one up, or complete it. -/
theorem call_cases {l : LoggedWriter} (h : l.writer.Valid) (c : WriterCall) :
    l.call c = l ∨
    (∃ p o, c = .record p o ∧ l.call c = ⟨l.writer.record p o, .recorded p o :: l.log⟩) ∨
    (∃ w, l.writer.beginFlush = .ok (some w) ∧ l.call c = ⟨w, .taken :: l.log⟩) ∨
    ((∃ s, l.writer.snapshot = some s) ∧ l.call c = ⟨l.writer.cancelFlush, .undone :: l.log⟩) ∨
    (∃ id w s, l.writer.complete? id = some w ∧ l.writer.snapshot = some s ∧
      l.call c = ⟨w, .completed s :: l.log⟩) := by
  cases c with
  | record p o => exact .inr (.inl ⟨p, o, rfl, rfl⟩)
  | beginFlush =>
    cases hb : l.writer.beginFlush with
    | error e => exact .inl (by simp [call, OffsetWriter.call, hb])
    | ok w? =>
      cases w? with
      | none => exact .inl (by simp [call, OffsetWriter.call, hb])
      | some w => exact .inr (.inr (.inl ⟨w, rfl, by simp [call, OffsetWriter.call, hb]⟩))
  | submit =>
    obtain ⟨-, hs⟩ | ⟨s, e, hsnap, -, hs⟩ | ⟨s, es, -, -, hs⟩ := OffsetWriter.submit_cases h
    · exact .inl (by simp [call, OffsetWriter.call, hs])
    · exact .inr (.inr (.inr (.inl ⟨⟨s, hsnap⟩, by simp [call, OffsetWriter.call, hs]⟩)))
    · exact .inl (by simp [call, OffsetWriter.call, hs])
  | complete id =>
    cases hc : l.writer.complete? id with
    | none => exact .inl (by simp [call, OffsetWriter.call, hc])
    | some w =>
      obtain ⟨s, hs, -, -⟩ := OffsetWriter.complete?_eq_some hc
      exact .inr (.inr (.inr (.inr ⟨id, w, s, hc, hs, by simp [call, OffsetWriter.call, hc, hs]⟩)))
  | cancelFlush =>
    cases hs : l.writer.snapshot with
    | none =>
      exact .inl (by
        simp [call, OffsetWriter.call, OffsetWriter.inProgress, hs,
          OffsetWriter.cancelFlush_of_none hs])
    | some s =>
      exact .inr (.inr (.inr (.inl
        ⟨⟨s, rfl⟩, by simp [call, OffsetWriter.call, OffsetWriter.inProgress, hs]⟩)))

/-! ### Writer and log -/

/-- A snapshot is only taken when none is outstanding. -/
def WellMarked : List WriterMark → Prop
  | [] => True
  | .taken :: older => WriterMark.outstanding older = false ∧ WellMarked older
  | .recorded _ _ :: older | .undone :: older | .completed _ :: older => WellMarked older

/-- **Writer and log go together**: the log tells whether a snapshot is outstanding, what is not
committed, and, while a snapshot is outstanding, what is pending beside it. -/
structure Consistent (l : LoggedWriter) : Prop where
  valid : l.writer.Valid
  marked : WellMarked l.log
  outstanding : l.writer.inProgress = WriterMark.outstanding l.log
  owed : ∀ k, l.writer.uncommitted? k = Positions.latest? k (WriterMark.owed l.log)
  sinceTaken : l.writer.snapshot ≠ none →
    ∀ k, Dictionary.get? k l.writer.pending = Positions.latest? k (WriterMark.sinceTaken l.log)

/-- A new writer owes nothing. -/
theorem Consistent.new (f : OffsetFormat) : Consistent (new f) where
  valid := .new f
  marked := trivial
  outstanding := rfl
  owed _ := rfl
  sinceTaken h := absurd rfl h

/-- **One call keeps writer and log together.** -/
theorem Consistent.call {l : LoggedWriter} (h : l.Consistent) (c : WriterCall) :
    (l.call c).Consistent := by
  obtain heq | ⟨p, o, -, heq⟩ | ⟨w, hb, heq⟩ | ⟨⟨s, hs⟩, heq⟩ | ⟨id, w, s, hc, hs, heq⟩ :=
    call_cases h.valid c <;> rw [heq]
  · exact h
  · refine ⟨h.valid.record p o, h.marked, h.outstanding, ?_, ?_⟩
    · intro k
      rw [OffsetWriter.uncommitted?_record, h.owed, WriterMark.owed, Positions.latest?_cons]
    · intro hs k
      rw [OffsetWriter.record, Positions.get?_record, h.sinceTaken hs, WriterMark.sinceTaken,
        Positions.latest?_cons]
  · obtain ⟨hnone, -, hw⟩ := OffsetWriter.beginFlush_eq_ok_some hb
    refine ⟨h.valid.beginFlush hb, ⟨?_, h.marked⟩,
      by rw [hw]; rfl, fun k => ?_, fun _ k => by rw [hw]; rfl⟩
    · rw [← h.outstanding, OffsetWriter.inProgress, hnone]
      rfl
    · rw [OffsetWriter.uncommitted?_beginFlush hb, h.owed, WriterMark.owed]
  · refine ⟨h.valid.cancelFlush, h.marked, ?_, ?_, ?_⟩
    · rw [OffsetWriter.cancelFlush_eq hs]
      rfl
    · intro k
      rw [OffsetWriter.uncommitted?_cancelFlush h.valid, h.owed, WriterMark.owed]
    · intro hne
      rw [OffsetWriter.cancelFlush_eq hs] at hne
      exact absurd rfl hne
  · obtain ⟨-, -, -, hw⟩ := OffsetWriter.complete?_eq_some hc
    refine ⟨h.valid.complete? hc, h.marked, by rw [hw]; rfl, ?_, ?_⟩
    · intro k
      rw [OffsetWriter.uncommitted?_complete? hc, h.sinceTaken (by simp [hs]), WriterMark.owed]
    · intro hne
      rw [hw] at hne
      exact absurd rfl hne

/-- Writer and log go together after any calls. -/
theorem Consistent.calls {l : LoggedWriter} (h : l.Consistent) (cs : List WriterCall) :
    (l.calls cs).Consistent :=
  calls_induction (fun _ c _ h => h.call c) h

/-! ### The fate of a position -/

/-- The last position recorded for each partition is not committed yet, or was in a snapshot that
was completed after it was recorded. -/
def Kept (l : LoggedWriter) : Prop :=
  ∀ (newer older : List WriterMark) (p : Partition) (o : Offset),
    l.log = newer ++ .recorded p o :: older → (∀ o', .recorded p o' ∉ newer) →
    l.writer.uncommitted? (partitionKey p) = some (p, o) ∨
    ∃ s, .completed s ∈ newer ∧ Dictionary.get? (partitionKey p) s = some (p, o)

/-- All partitions of a log have whole numbers. -/
def IsWholeLog (log : List WriterMark) : Prop :=
  ∀ p o, .recorded p o ∈ log → IsWhole p

/-- A call whose mark leaves the uncommitted position of a partition alone keeps it. -/
theorem Kept.cons {l : LoggedWriter} (h : l.Kept) {m : WriterMark} {w : OffsetWriter}
    (hrec : ∀ p o, m ≠ .recorded p o) (hget : ∀ k, w.uncommitted? k = l.writer.uncommitted? k ∨
      ∃ s, m = .completed s ∧ Dictionary.get? k s = l.writer.uncommitted? k) :
    Kept ⟨w, m :: l.log⟩ := by
  intro newer older p o hlog hlast
  cases newer with
  | nil => exact absurd (List.cons.inj hlog).1 (hrec p o)
  | cons m' newer =>
    obtain ⟨hm, hrest⟩ := List.cons.inj hlog
    subst hm
    have hlast' := fun o' hm => hlast o' (List.mem_cons_of_mem _ hm)
    rcases h newer older p o hrest hlast' with hu | ⟨s, hs, hsget⟩
    · rcases hget (partitionKey p) with heq | ⟨s, rfl, hs⟩
      · exact .inl (heq.trans hu)
      · exact .inr ⟨s, List.mem_cons_self, hs.trans hu⟩
    · exact .inr ⟨s, List.mem_cons_of_mem _ hs, hsget⟩

/-- **One call keeps every position** that is not replaced. -/
theorem Kept.call {l : LoggedWriter} (h : l.Kept) (hc : l.Consistent) {c : WriterCall}
    (hwhole : IsWholeLog (l.call c).log) : (l.call c).Kept := by
  obtain heq | ⟨p, o, -, heq⟩ | ⟨w, hb, heq⟩ | ⟨⟨s, hs⟩, heq⟩ | ⟨id, w, s, hcom, hs, heq⟩ :=
    call_cases hc.valid c <;> rw [heq] at hwhole ⊢
  · exact h
  · -- A position replaces none but that of its own partition.
    intro newer older q o' hlog hlast
    cases newer with
    | nil =>
      obtain ⟨hm, -⟩ := List.cons.inj hlog
      obtain ⟨rfl, rfl⟩ := WriterMark.recorded.inj hm
      exact .inl (by rw [OffsetWriter.uncommitted?_record, if_pos rfl])
    | cons m newer =>
      obtain ⟨hm, hrest⟩ := List.cons.inj hlog
      subst hm
      have hne : partitionKey q ≠ partitionKey p := fun hk => by
        have hq : IsWhole q := hwhole q o' (List.mem_cons_of_mem _ (by rw [hrest]; simp))
        have hp : IsWhole p := hwhole p o List.mem_cons_self
        exact hlast o ((partitionKey_inj hq hp).mp hk ▸ List.mem_cons_self)
      rcases h newer older q o' hrest fun o'' hm => hlast o'' (List.mem_cons_of_mem _ hm) with
        hu | ⟨s, hs, hget⟩
      · exact .inl (by rw [OffsetWriter.uncommitted?_record, if_neg hne, hu])
      · exact .inr ⟨s, List.mem_cons_of_mem _ hs, hget⟩
  · exact h.cons (by simp) fun k => .inl (OffsetWriter.uncommitted?_beginFlush hb k)
  · exact h.cons (by simp) fun k => .inl (OffsetWriter.uncommitted?_cancelFlush hc.valid k)
  · refine h.cons (by simp) ?_
    intro k
    rw [OffsetWriter.uncommitted?_complete? hcom, OffsetWriter.uncommitted?, hs, Option.getD_some]
    cases Dictionary.get? k l.writer.pending with
    | some x => exact .inl rfl
    | none => exact .inr ⟨s, rfl, rfl⟩

/-- Only recorded partitions come into the log. -/
theorem isWholeLog_call {l : LoggedWriter} (hv : l.writer.Valid) (h : IsWholeLog l.log)
    {c : WriterCall} (hc : ∀ p o, c = .record p o → IsWhole p) : IsWholeLog (l.call c).log := by
  obtain heq | ⟨p, o, hrec, heq⟩ | ⟨w, -, heq⟩ | ⟨-, heq⟩ | ⟨id, w, s, -, -, heq⟩ :=
    call_cases hv c <;>
    rw [heq] <;> intro q o' hm
  · exact h q o' hm
  · rcases List.mem_cons.mp hm with hm | hm
    · obtain ⟨rfl, rfl⟩ := WriterMark.recorded.inj hm
      exact hc _ _ hrec
    · exact h q o' hm
  all_goals exact h q o' ((List.mem_cons.mp hm).resolve_left (by simp))

/-- Every position is kept after any calls. -/
theorem kept_calls (f : OffsetFormat) {cs : List WriterCall}
    (hw : ∀ p o, .record p o ∈ cs → IsWhole p) :
    ((new f).calls cs).Kept ∧ IsWholeLog ((new f).calls cs).log := by
  have hall : ((new f).calls cs).Consistent ∧ IsWholeLog ((new f).calls cs).log ∧
      ((new f).calls cs).Kept := by
    refine calls_induction (motive := fun l => l.Consistent ∧ IsWholeLog l.log ∧ l.Kept) ?_ ?_
    · rintro l c hmem ⟨hcon, hlog, hkept⟩
      have hlog' := isWholeLog_call hcon.valid hlog fun p o hc => hw p o (hc ▸ hmem)
      exact ⟨hcon.call c, hlog', hkept.call hcon hlog'⟩
    · refine ⟨.new f, fun _ _ hm => absurd hm List.not_mem_nil, fun newer older p o hlog _ => ?_⟩
      exact absurd hlog.symm (by simp [new])
  exact ⟨hall.2.2, hall.2.1⟩

/-- **A flush that is undone leaves the pending positions as if it had never begun**, with those
recorded since put in. -/
theorem Consistent.pending_of_undone {l₀ l : LoggedWriter} (h₀ : l₀.Consistent) (h : l.Consistent)
    {newer : List (Partition × Offset)}
    (hlog : l.log = .undone :: (newer.map WriterMark.ofPosition ++ .taken :: l₀.log)) :
    l.writer.snapshot = none ∧ l.writer.pending = l₀.writer.pending.recordAll newer := by
  have hnone : l.writer.snapshot = none := by
    have := h.outstanding
    rw [hlog] at this
    exact Option.isNone_iff_eq_none.mp
      (by simpa [OffsetWriter.inProgress, WriterMark.outstanding] using this)
  have hmarked : WellMarked (.taken :: l₀.log) := by
    have hm : WellMarked (newer.map WriterMark.ofPosition ++ .taken :: l₀.log) := by
      have := h.marked
      rwa [hlog] at this
    clear hlog
    induction newer with
    | nil => exact hm
    | cons x newer ih => exact ih hm
  have hnone₀ : l₀.writer.snapshot = none := by
    have := h₀.outstanding.trans hmarked.1
    exact Option.isNone_iff_eq_none.mp (by simpa [OffsetWriter.inProgress] using this)
  refine ⟨hnone, ?_⟩
  refine Dictionary.ext h.valid.pending.sorted (h₀.valid.pending.recordAll newer).sorted ?_
  intro k
  have hu : ∀ {l : LoggedWriter}, l.writer.snapshot = none →
      Dictionary.get? k l.writer.pending = l.writer.uncommitted? k := fun hs => by
    simp [OffsetWriter.uncommitted?, hs]
  rw [hu hnone, h.owed, hlog, WriterMark.owed, WriterMark.owed_append_recorded, WriterMark.owed,
    Positions.get?_recordAll, hu hnone₀, h₀.owed]
  exact List.find?_append

end LoggedWriter

/-! ### A writer among its background writes -/

/-- What may happen at a desk: a call of the writer, a background write that is cancelled or takes a
turn, or time that goes by. -/
inductive DeskMove where
  | call (c : WriterCall)
  | cancelWrite (i : Nat)
  | turn (i : Nat)
  | pass (now : Nat)
  deriving DecidableEq, Repr

/-- The call of the writer among what happens. -/
def DeskMove.call? : DeskMove → Option WriterCall
  | .call c => some c
  | .cancelWrite _ | .turn _ | .pass _ => none

namespace Desk

/-- What happens at a desk. -/
def move (d : Desk) : DeskMove → Desk
  | .call (.record p o) => d.record p o
  | .call .beginFlush => d.beginFlush.2
  | .call .submit => d.flush.2
  | .call (.complete flushId) => (d.complete flushId).2
  | .call .cancelFlush => d.cancelFlush
  | .cancelWrite i => d.cancelWrite i
  | .turn i => d.turn i
  | .pass now => { d with now }

/-- Things happen at a desk one after the other. -/
def follow (d : Desk) (moves : List DeskMove) : Desk :=
  moves.foldl move d

/-- What came of the calls at a desk, the newest first. -/
def marks (d : Desk) (moves : List DeskMove) : List WriterMark :=
  (LoggedWriter.calls ⟨d.writer, []⟩ (moves.filterMap DeskMove.call?)).log

/-- A call at a desk is a call of its writer. -/
theorem writer_move_call (d : Desk) (c : WriterCall) :
    (d.move (.call c)).writer = (d.writer.call c).1 := by
  cases c with
  | record p o => rfl
  | beginFlush =>
    rw [move, beginFlush, OffsetWriter.call]
    split <;> simp_all [report]
  | submit =>
    rw [move, flush, OffsetWriter.call]
    split <;> simp_all [report]
  | complete flushId =>
    rw [move, complete, OffsetWriter.call]
    split <;> simp_all [report]
  | cancelFlush => rfl

/-- Background writes and time leave the writer alone. -/
theorem writer_move_of_call?_eq_none (d : Desk) {m : DeskMove} (h : m.call? = none) :
    (d.move m).writer = d.writer := by
  cases m with
  | call c => cases h
  | cancelWrite i => rfl
  | turn i =>
    rw [move, turn]
    split
    · rfl
    · rfl
  | pass now => rfl

/-- **The writer of a desk only sees its calls.** -/
theorem writer_follow (d : Desk) (moves : List DeskMove) (log : List WriterMark) :
    (d.follow moves).writer =
      (LoggedWriter.calls ⟨d.writer, log⟩ (moves.filterMap DeskMove.call?)).writer := by
  induction moves generalizing d log with
  | nil => rfl
  | cons m moves ih =>
    cases hm : m.call? with
    | none =>
      rw [List.filterMap_cons_none hm, ← writer_move_of_call?_eq_none d hm]
      exact ih (d.move m) log
    | some c =>
      obtain rfl : m = .call c := by
        cases m with
        | call c' => exact congrArg DeskMove.call (Option.some.inj hm)
        | cancelWrite _ | turn _ | pass _ => cases hm
      rw [List.filterMap_cons_some hm]
      refine (ih (d.move (.call c)) ((d.writer.call c).2 ++ log)).trans ?_
      rw [writer_move_call]
      rfl

/-- **A writer loses no position and prefers no older one**, whatever is asked of it, in whatever
order, and however its background writes go. The last position recorded for a partition is
uncommitted still, unless a snapshot with it was completed since. What is uncommitted are the latest
of the positions that were in no completed snapshot. A flush that is undone leaves the pending
positions as if it had never begun. -/
theorem uncommitted_eq_owed {f : OffsetFormat} {d : Desk} (hnew : d.writer = { format := f })
    {moves : List DeskMove} (hwhole : ∀ p o, .call (.record p o) ∈ moves → IsWhole p) :
    (∀ newer older p o, d.marks moves = newer ++ .recorded p o :: older →
      (∀ o', .recorded p o' ∉ newer) →
      (d.follow moves).writer.uncommitted? (partitionKey p) = some (p, o) ∨
      ∃ s, .completed s ∈ newer ∧ Dictionary.get? (partitionKey p) s = some (p, o)) ∧
    (∀ p, IsWhole p →
      Dictionary.get? (partitionKey p) (d.follow moves).writer.uncommitted =
        (WriterMark.owed (d.marks moves)).find? fun x => x.1 = p) ∧
    ∀ before after recorded, moves = before ++ after →
      d.marks moves = .undone :: (recorded.map WriterMark.ofPosition ++ .taken :: d.marks before) →
      (d.follow moves).writer.snapshot = none ∧
      (d.follow moves).writer.pending = (d.follow before).writer.pending.recordAll recorded := by
  have hstart : (⟨d.writer, []⟩ : LoggedWriter) = .new f := by rw [hnew]; rfl
  have hcons : ∀ moves : List DeskMove,
      (LoggedWriter.calls ⟨d.writer, []⟩ (moves.filterMap DeskMove.call?)).Consistent :=
        fun moves => by
    rw [hstart]
    exact (LoggedWriter.Consistent.new f).calls _
  have hrecs : ∀ p o, .record p o ∈ moves.filterMap DeskMove.call? → IsWhole p := fun p o hm => by
    obtain ⟨m, hm, hcall⟩ := List.mem_filterMap.mp hm
    cases m with
    | call c => exact hwhole p o (Option.some.inj hcall ▸ hm)
    | cancelWrite _ | turn _ | pass _ => cases hcall
  obtain ⟨hkept, hlog⟩ := LoggedWriter.kept_calls f hrecs
  rw [← hstart] at hkept hlog
  refine ⟨?_, ?_, ?_⟩
  · intro newer older p o hm hlast
    rw [writer_follow d moves []]
    exact hkept newer older p o hm hlast
  · intro p hp
    rw [writer_follow d moves [], OffsetWriter.get?_uncommitted (hcons moves).valid,
      (hcons moves).owed]
    refine Positions.latest?_partitionKey fun x hx => ?_
    exact partitionKey_inj (hlog _ _ (WriterMark.recorded_mem_of_mem_owed hx)) hp
  · intro before after recorded _ hm
    rw [writer_follow d moves [], writer_follow d before []]
    exact (hcons before).pending_of_undone (hcons moves) hm

/-- A flush is cancelled after a newer position was recorded: the newer one stays. -/
theorem uncommitted_after_cancelled_flush :
    let f : OffsetFormat :=
      { scope := "engine", keys := ConverterKind.json.converter
        values := ConverterKind.json.converter }
    let d : Desk := { store := {}, writer := { format := f } }
    let table : Partition := [("table", .number (.integer 7))]
    let moves : List DeskMove :=
      [.call (.record table [("at", .number (.integer 1))]), .call .beginFlush, .call .submit,
        .turn 0, .call (.record table [("at", .number (.integer 2))]), .call .cancelFlush]
    Dictionary.get? (partitionKey table) (d.follow moves).writer.uncommitted =
        some (table, [("at", .number (.integer 2))]) ∧
      (d.follow moves).writer.snapshot = none := by
  intro f d table moves
  have hwhole : IsWhole table := ⟨trivial, rfl, trivial⟩
  have h := @uncommitted_eq_owed f d rfl moves fun p o hm => by
    have hp : p = table := by simp [moves] at hm; exact hm.elim And.left And.left
    exact hp ▸ hwhole
  have hmarks : d.marks moves =
      .undone :: ([(table, [("at", .number (.integer 2))])].map WriterMark.ofPosition ++
        .taken :: d.marks (moves.take 1)) := by decide +kernel
  refine ⟨(h.2.1 table hwhole).trans ?_,
    (h.2.2 (moves.take 1) _ _ (List.take_append_drop 1 moves).symm hmarks).1⟩
  rw [hmarks]
  decide +kernel

end Desk

end ChangeCapture
