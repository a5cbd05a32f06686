import ChangeCapture.Proofs.Run.Pace

/-!
# What a flush attempt comes to

The policy is consulted, and if it agrees an attempt at a flush begins. Nothing may be pending, or a
position has no bytes; otherwise the snapshot is submitted and waited for. Whenever the wait is
looked at, an interrupt goes before a write that has come to an end, and that before a deadline that
has come.

An attempt comes to one of two ends. Either the flush is confirmed, the snapshot is let go and the
counters begin anew; or it is given up, its write acts on the store no more, its positions are
pending again, the counters are as before, and one failure is counted. Neither leaves a snapshot
outstanding, so no attempt ever finds one.

## Main definitions

* `Host.Begins`: how an attempt begins.
* `Host.Confirms`, `Host.GivesUp`: the two ends.

## Main results

* `Host.consulting_begins` — every attempt begins in one of three ways.
* `Host.Reaches.settles_in_time` — and comes to one of the two ends, by its deadline.
-/

namespace ChangeCapture

namespace Host

/-! ### Beginnings and ends -/

/-- **How an attempt at a flush begins**: nothing is to be done, or what is pending cannot be
submitted and is pending again, or it is submitted and waited for up to the commit timeout. -/
inductive Begins (s : Setup) (r : Nat) (final : Bool) (a a' : Active) (h h' : Host) : Prop where
  | passes
      (hno : s.policy.fires a.records (h.now - a.lastCommit) = false ∨ a.writer.pending = [])
      (hwriter : a'.writer = a.writer) (hcounters : a.CountsAs a') (hmetrics : h'.metrics = h.metrics)
      (hwrites : h'.writes = h.writes) (hstage : a'.stage = (afterCommit a final).stage)
  | refuses {w : OffsetWriter} {e : OffsetError}
      (hfires : s.policy.fires a.records (h.now - a.lastCommit) = true)
      (hbegin : a.writer.beginFlush = .ok (some w)) (hsubmit : w.submit.1 = .refused e)
      (hsnapshot : a'.writer.snapshot = none) (hpending : a'.writer.pending = a.writer.pending)
      (hcounters : a.CountsAs a') (hmetrics : h'.metrics = h.metrics.map (·.add .flushesFailed 1))
      (hwrites : h'.writes = h.writes) (hstage : a'.stage = (afterCommit a final).stage)
  | submits {w : OffsetWriter} {flushId : Nat} {entries : Entries}
      (hfires : s.policy.fires a.records (h.now - a.lastCommit) = true)
      (hbegin : a.writer.beginFlush = .ok (some w))
      (hsubmit : w.submit = (.submitted flushId entries, a'.writer))
      (hcounters : a.CountsAs a') (hmetrics : h'.metrics = h.metrics)
      (hwrites : h'.writes = h.writes ++ [{ run := r, flushId, entries }])
      (hstage : a'.stage = .flushing h.writes.length (h.now + s.flushTimeout) final)

/-- **A flush is confirmed.** Its completion is accepted, nothing is pending or outstanding, and the
counters begin anew. -/
structure Confirms (r n flushId : Nat) (final : Bool) (a a' : Active) (h h' : Host) : Prop where
  accepted : a.writer.complete? flushId = some a'.writer
  snapshot : a'.writer.snapshot = none
  pending : a'.writer.pending = []
  records : a'.records = 0
  lastCommit : a'.lastCommit = h.now
  metrics : h'.metrics = h.metrics.map fun m => (m.add .flushesCommitted 1).setPending 0
  history : h'.history = ⟨r, h.now, .committed n⟩ :: h.history
  stage : a'.stage = (afterCommit a final).stage

/-- **A flush is given up.** Its write does nothing more, all positions of its snapshot are pending
again, the counters are as before, and one failure is counted. -/
structure GivesUp (s : Setup) (r n : Nat) (why : Notice) (final : Bool) (a a' : Active)
    (h h' : Host) : Prop where
  inert : ∀ h₁, Reaches s h' h₁ → h₁.turnWrite n = h₁
  store : h'.store = h.store
  snapshot : a'.writer.snapshot = none
  pending : a.writer.snapshot = some a'.writer.pending
  counters : a.CountsAs a'
  metrics : h'.metrics = h.metrics.map (·.add .flushesFailed 1)
  history : h'.history = ⟨r, h.now, .givenUp n⟩ :: ⟨r, h.now, .notice why⟩ :: h.history
  stage : a'.stage = (afterCommit a final).stage

/-- Where the next step of a run leads that does not end with it. -/
def GoesOn (s : Setup) (r : Nat) (h : Host) (Q : Active → Host → Prop) : Prop :=
  ∃ a' h', h.advance s r = some h' ∧ h'.status? r = some (.active a') ∧ Q a' h'

variable {s : Setup} {r n deadline : Nat} {h h₀ h₁ : Host} {a a' : Active} {final : Bool}

/-- The step of a run that is not to be dropped leads where its function says. -/
theorem goesOn_of_step {Q : Active → Host → Prop} (hab : h.isAborting r = false)
    (hst : h.status? r = some (.active a)) (hstep : h.step s r a = .goesOn a' h₁)
    (hruns : h₁.runs = h.runs) (hq : Q a' (h₁.setStatus r (.active a'))) : h.GoesOn s r Q := by
  refine ⟨a', h₁.setStatus r (.active a'), ?_, ?_, hq⟩
  · rw [advance_eq_step hab hst, hstep]
    rfl
  · rw [status?_setStatus, if_pos rfl, status?, hruns]
    exact congrArg (Option.map fun _ => RunStatus.active a') hst

/-- **What comes of a flush that is waited for**, whenever the wait is looked at: an interrupt goes
before a write that has come to an end, and that before a deadline that has come. -/
structure Settles (s : Setup) (r n deadline : Nat) (final : Bool) (a : Active) (w : Write)
    (h : Host) : Prop where
  interrupted : h.lifecycle.interrupted = true →
    h.GoesOn s r fun a' h' => GivesUp s r n .flushInterrupted final a a' h h'
  succeeded : h.lifecycle.interrupted = false → w.result? = some none →
    h.GoesOn s r fun a' h' => Confirms r n w.flushId final a a' h h'
  failed : h.lifecycle.interrupted = false → ∀ e, w.result? = some (some e) →
    h.GoesOn s r fun a' h' => GivesUp s r n .flushFailed final a a' h h'
  timedOut : h.lifecycle.interrupted = false → w.result? = none → deadline ≤ h.now →
    h.GoesOn s r fun a' h' => GivesUp s r n .flushTimedOut final a a' h h'
  waits : h.lifecycle.interrupted = false → w.result? = none → h.now < deadline →
    h.advance s r = none

/-! ### Beginnings -/

/-- Writing down how far a run is leaves it how an attempt begins. -/
theorem Begins.setStatus {h' : Host} (hb : Begins s r final a a' h h') (st : RunStatus) :
    Begins s r final a a' h (h'.setStatus r st) := by
  cases hb with
  | passes hno hw hc hm hws hs => exact .passes hno hw hc hm hws hs
  | refuses hf hb hsub hs hp hc hm hws hst => exact .refuses hf hb hsub hs hp hc hm hws hst
  | submits hf hb hsub hc hm hws hst => exact .submits hf hb hsub hc hm hws hst

/-- A snapshot that is refused is pending again. -/
theorem submit_of_refused {w : OffsetWriter} {e : OffsetError} (h : w.submit.1 = .refused e) :
    w.submit.2 = w.cancelFlush := by
  rw [OffsetWriter.submit] at h ⊢
  split at h
  · cases h
  · cases h
  · split at h
    · rfl
    · cases h

/-- A snapshot that was just taken is pending again when it is cancelled. -/
theorem cancelFlush_of_beginFlush {v w : OffsetWriter} (hb : v.beginFlush = .ok (some w)) :
    w.cancelFlush.snapshot = none ∧ w.cancelFlush.pending = v.pending := by
  obtain ⟨-, -, rfl⟩ := OffsetWriter.beginFlush_eq_ok_some hb
  exact ⟨rfl, rfl⟩

/-- A snapshot that was just taken is not empty. -/
theorem submit_ne_nothing {v w : OffsetWriter} (hb : v.beginFlush = .ok (some w)) :
    w.submit.1 ≠ .nothing := by
  obtain ⟨-, hne, rfl⟩ := OffsetWriter.beginFlush_eq_ok_some hb
  obtain ⟨e, rest, hp⟩ := List.exists_cons_of_ne_nil hne
  rw [OffsetWriter.submit]
  simp only [hp]
  split <;> rintro ⟨⟩

/-- Without an outstanding snapshot, an attempt begins. -/
theorem beginFlush_ne_error {w : OffsetWriter} (hs : w.snapshot = none) (e : OffsetError) :
    w.beginFlush ≠ .error e := by
  rw [OffsetWriter.beginFlush, hs]
  dsimp only
  split <;> rintro ⟨⟩

/-- **Every attempt begins in one of three ways**, for any writer without an outstanding
snapshot. -/
theorem consulting_begins (s : Setup) (r : Nat) (final : Bool) (h : Host)
    (hs : a.writer.snapshot = none) :
    ∃ a' h', h.consulting s r a final = .goesOn a' h' ∧ h'.runs = h.runs ∧
      Begins s r final a a' h h' := by
  rw [consulting, emitAll_eq]
  split
  · rename_i hfires
    rw [flush]
    split
    · rename_i e hbegin
      exact absurd hbegin (beginFlush_ne_error hs e)
    · rename_i hbegin
      have hnil : a.writer.pending = [] := by
        by_contra hne
        obtain ⟨w, hw⟩ := OffsetWriter.exists_beginFlush hs hne
        rw [hbegin] at hw
        cases hw
      exact ⟨_, _, rfl, rfl, .passes (.inr hnil) rfl ⟨rfl, rfl⟩ rfl rfl rfl⟩
    · rename_i w hbegin
      rw [submit]
      split
      · rename_i hsubmit
        exact absurd (by rw [hsubmit]) (submit_ne_nothing hbegin)
      · rename_i e w' hsubmit
        obtain rfl : w' = w.cancelFlush := by
          rw [← submit_of_refused (e := e) (by rw [hsubmit]), hsubmit]
        obtain ⟨hsnapshot, hpending⟩ := cancelFlush_of_beginFlush hbegin
        rw [emitAll_eq]
        exact ⟨_, _, rfl, rfl, .refuses hfires hbegin (by rw [hsubmit]) hsnapshot hpending
          ⟨rfl, rfl⟩ rfl rfl rfl⟩
      · rename_i flushId entries w' hsubmit
        exact ⟨_, _, rfl, rfl, .submits hfires hbegin hsubmit ⟨rfl, rfl⟩ rfl rfl rfl⟩
  · rename_i hfires
    exact ⟨_, _, rfl, rfl, .passes (.inl (Bool.eq_false_iff.mpr hfires)) rfl ⟨rfl, rfl⟩ rfl rfl rfl⟩

/-! ### Ends -/

/-- A run that gives a flush up. -/
theorem giveUp_givesUp {w : Write} {why : Notice} {snapshot : Positions}
    (hab : h.isAborting r = false) (hst : h.status? r = some (.active a))
    (hstep : h.step s r a = h.giveUp r a n final why) (hw : h.writes[n]? = some w)
    (hsnapshot : a.writer.snapshot = some snapshot) (hpending : a.writer.pending = []) :
    h.GoesOn s r fun a' h' => GivesUp s r n why final a a' h h' := by
  have hcancel := OffsetWriter.cancelFlush_eq hsnapshot
  rw [hpending] at hcancel
  refine goesOn_of_step hab hst hstep rfl ⟨fun h₁ hr => ?_, rfl, ?_, ?_, ⟨rfl, rfl⟩, rfl, rfl, rfl⟩
  · -- The write is cancelled, and a write that is over stays so.
    refine IsOver.turnWrite (IsOver.reaches ⟨w.cancel, ?_, w.isLive_cancel⟩ hr)
    change (h.writes.modify n Write.cancel)[n]? = _
    rw [List.getElem?_modify, hw]
    simp
  · exact congrArg OffsetWriter.snapshot hcancel
  · exact hsnapshot.trans (congrArg (fun v : OffsetWriter => some v.pending) hcancel).symm

/-- A run that confirms a flush. -/
theorem commit_confirms {flushId : Nat} {snapshot : Positions} (hab : h.isAborting r = false)
    (hst : h.status? r = some (.active a))
    (hstep : h.step s r a = h.commit r a n flushId final) (hid : flushId = a.writer.flushId)
    (hsnapshot : a.writer.snapshot = some snapshot) (hpending : a.writer.pending = []) :
    h.GoesOn s r fun a' h' => Confirms r n flushId final a a' h h' := by
  have haccepted := OffsetWriter.complete?_flushId hsnapshot
  rw [← hid] at haccepted
  rw [commit, haccepted] at hstep
  exact goesOn_of_step hab hst hstep rfl ⟨haccepted, rfl, hpending, rfl, rfl, rfl, rfl, rfl⟩

/-- Before the deadline, a run waits for a write that has not come to an end. -/
theorem advance_of_waiting {w : Write} (hab : h.isAborting r = false)
    (hst : h.status? r = some (.active a)) (ha : a.stage = .flushing n deadline final)
    (hi : h.lifecycle.interrupted = false) (hw : h.writes[n]? = some w) (hres : w.result? = none)
    (hlt : h.now < deadline) : h.advance s r = none := by
  rw [advance_eq_step hab hst, step, ha]
  dsimp only
  rw [flushing, hi, if_neg Bool.false_ne_true, hw]
  dsimp only
  rw [hres]
  dsimp only
  rw [if_neg (Nat.not_le.mpr hlt)]
  rfl

/-- **A flush that is waited for settles.** -/
theorem Reaches.settles_waiting (hf : h₀.Fresh) (hr : Reaches s h₀ h)
    (hst : h.status? r = some (.active a)) (hab : h.isAborting r = false)
    (ha : a.stage = .flushing n deadline final) :
    ∃ w, h.writes[n]? = some w ∧ w.run = r ∧ Settles s r n deadline final a w h := by
  have hwait : a.stage.standing = .waiting n := by rw [ha]; rfl
  obtain ⟨hpending, hsnapshot, w, hw, hid, -⟩ :=
    ((Reaches.booked hf hr).ledger r a hst).waiting n hwait
  obtain ⟨w', hw', hrun⟩ := (Reaches.orderly hf hr).awaited r n ⟨a, hst, hwait⟩
  obtain rfl := Option.some.inj (hw'.symm.trans hw)
  have hstep : h.step s r a = h.flushing r a n deadline final := by rw [step, ha]
  rw [flushing, hw] at hstep
  have gives : ∀ {why}, h.step s r a = h.giveUp r a n final why →
      h.GoesOn s r fun a' h' => GivesUp s r n why final a a' h h' := fun hstep =>
    giveUp_givesUp hab hst hstep hw hsnapshot hpending
  refine ⟨w', hw, hrun, fun hi => gives ?_, fun hi hres => ?_, fun hi e hres => gives ?_,
    fun hi hres hdue => gives ?_, fun hi hres hlt => advance_of_waiting hab hst ha hi hw hres hlt⟩
  · rwa [if_pos hi] at hstep
  · refine commit_confirms hab hst ?_ hid hsnapshot hpending
    simpa only [hi, hres, Bool.false_eq_true, if_false] using hstep
  · simpa only [hi, hres, Bool.false_eq_true, if_false] using hstep
  · simpa only [hi, hres, Bool.false_eq_true, if_false, if_pos hdue] using hstep

/-- **Every attempt at a flush comes to one of two ends, by its deadline.** An attempt never finds a
snapshot outstanding, and whatever its writer is, it begins in one of three ways. While its write is
waited for, an interrupt goes before a write that has come to an end, and that before the deadline:
the flush is confirmed if the write succeeded and given up otherwise. Under an executor that is
never late it is confirmed or given up within the commit timeout. -/
theorem Reaches.settles_in_time (hf : h₀.Fresh) (hr : Reaches s h₀ h)
    (hst : h.status? r = some (.active a)) (hab : h.isAborting r = false) :
    (∀ final, a.stage = .consulting final → (∀ e, a.writer.beginFlush ≠ .error e) ∧
      h.GoesOn s r fun a' h' => Begins s r final a a' h h') ∧
    (∀ (b : Active) final, b.writer.snapshot = none →
      ∃ b' h', h.consulting s r b final = .goesOn b' h' ∧ Begins s r final b b' h h') ∧
    (∀ n deadline final, a.stage = .flushing n deadline final →
      ∃ w, h.writes[n]? = some w ∧ w.run = r ∧ Settles s r n deadline final a w h) ∧
    (ReachesPromptly s h₀ h → Throughout (ClosesInTime s) h.history ∧
      ∀ n deadline final, a.stage = .flushing n deadline final → h.now ≤ deadline ∧
        ∃ t entries, ⟨r, t, .submitted n entries⟩ ∈ h.history ∧ deadline = t + s.flushTimeout) := by
  refine ⟨fun final ha => ?_, fun b final hs => ?_, fun n deadline final ha => ?_, fun hp => ?_⟩
  · obtain ⟨hs, -⟩ := ((Reaches.booked hf hr).ledger r a hst).settled (by rw [ha]; rfl)
    obtain ⟨a', h₁, hstep, hruns, hbegins⟩ := consulting_begins s r final h hs
    exact ⟨beginFlush_ne_error hs,
      goesOn_of_step hab hst (by rw [step, ha]; exact hstep) hruns (hbegins.setStatus _)⟩
  · obtain ⟨b', h', hstep, -, hbegins⟩ := consulting_begins s r final h hs
    exact ⟨b', h', hstep, hbegins⟩
  · exact Reaches.settles_waiting hf hr hst hab ha
  · refine ⟨ReachesPromptly.closes_in_time hf hp, fun n deadline final ha => ?_⟩
    exact ⟨ReachesPromptly.now_le hf hp hst ha, Reaches.deadline_eq hf hr hst ha⟩

end Host

/-- The flush that a run waits for, its deadline, and whether it is the last one. -/
def RunStatus.waiting? : RunStatus → Option (Nat × Nat × Bool)
  | .active { stage := .flushing n deadline final, .. } => some (n, deadline, final)
  | _ => none

namespace Host

/-- A run that waits for a flush is active, and stands at that. -/
theorem exists_of_waiting? {h : Host} {r n deadline : Nat} {final : Bool}
    (hwaits : (h.status? r).bind RunStatus.waiting? = some (n, deadline, final)) :
    ∃ a, h.status? r = some (.active a) ∧ a.stage = .flushing n deadline final := by
  obtain ⟨st, hst, hwaits⟩ := Option.bind_eq_some_iff.mp hwaits
  rw [RunStatus.waiting?.eq_def] at hwaits
  split at hwaits
  · cases hwaits
    exact ⟨_, hst, rfl⟩
  · cases hwaits

/-- While the only run waits for a write, time may go by up to the deadline. -/
theorem ReachesPromptly.wait {s : Setup} {h₀ h : Host} {n deadline : Nat} {final : Bool}
    {a : Active} {w : Write} (hr : ReachesPromptly s h₀ h) (hone : h.runs.length = 1)
    (hab : h.isAborting 0 = false) (hst : h.status? 0 = some (.active a))
    (ha : a.stage = .flushing n deadline final) (hi : h.lifecycle.interrupted = false)
    (hw : h.writes[n]? = some w) (hres : w.result? = none) (hle : h.now ≤ deadline) :
    ReachesPromptly s h₀ { h with now := deadline } := by
  refine hr.tail ⟨.pass hle, .of_runs rfl, fun r now _ hlt => .inl ?_⟩
  cases r with
  | zero => exact advance_of_waiting (h := { h with now }) hab hst ha hi hw hres hlt
  | succ r =>
    have hno : h.runs[r + 1]? = none := List.getElem?_eq_none (by omega)
    rw [Host.advance, hno]

/-- The store never answers; at its deadline the flush is given up. -/
theorem settles_at_timeout :
    let s : Setup :=
      { config := { name := "engine", connectorClass := "source", flushTimeout := 5000
                    keyConverter := .json, valueConverter := .json, properties := [] }
        registry := Registry.empty.register "source" {}
        consumer := fun _ => {} }
    let x : Record :=
      { partition := [("shard", .number (.integer 1))], offset := [("row", .number (.integer 7))]
        topic := "rows", key := none, value := .null, timestamp := none }
    let plan : StorePlan := { sets := fun _ => .hangs }
    let h₀ : Host := { feed := [.batch [x]], store := { plan } }
    let h₁ := (h₀.request.runOn s 0 20).turnWrite 0
    let h : Host := { h₁ with now := 5000000000 }
    ReachesPromptly s h₀ h ∧ ∃ a, h.status? 0 = some (.active a) ∧
      h.GoesOn s 0 fun a' h' => GivesUp s 0 0 .flushTimedOut false a a' h h' := by
  intro s x plan h₀ h₁ h
  have hf : h₀.Fresh := ⟨rfl, rfl, rfl, rfl⟩
  have hp₁ : ReachesPromptly s h₀ h₁ :=
    .tail (ReachesPromptly.runOn (ReachesPromptly.request .refl) 0 20) ⟨.write 0, .write 0⟩
  have hwaits : (h₁.status? 0).bind RunStatus.waiting? = some (0, 5000000000, false) := by
    decide +kernel
  obtain ⟨a, hst, ha⟩ := exists_of_waiting? hwaits
  have hi : h₁.lifecycle.interrupted = false := by decide +kernel
  have hab : h₁.isAborting 0 = false := by decide +kernel
  have hone : h₁.runs.length = 1 := by decide +kernel
  have hstart : h₁.now = 0 := by decide +kernel
  have hnone : (h₁.writes[0]?).map Write.result? = some none := by decide +kernel
  obtain ⟨w, hw, hres⟩ := Option.map_eq_some_iff.mp hnone
  clear_value h₁
  have hp : ReachesPromptly s h₀ h :=
    hp₁.wait hone hab hst ha hi hw hres (hstart ▸ Nat.zero_le _)
  obtain ⟨-, -, hsettles, -⟩ := Reaches.settles_in_time hf (ReachesPromptly.reaches hp) hst hab
  obtain ⟨w', hw', -, hsettles⟩ := hsettles 0 5000000000 false ha
  obtain rfl := Option.some.inj (hw'.symm.trans hw)
  exact ⟨hp, a, hst, hsettles.timedOut hi hres (Nat.le_refl _)⟩

end Host

end ChangeCapture
