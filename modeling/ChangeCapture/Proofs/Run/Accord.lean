import ChangeCapture.Proofs.Run.Settling

/-!
# The counter and the writer of a run

A run counts the records that it has delivered, and its writer keeps their positions. The two are
changed at different places: a batch is recorded before it is delivered and counted afterwards, a
confirmed flush empties both, and one that is given up leaves the counter and fills the writer again.
They agree all the same: nothing is counted exactly if nothing is left to be confirmed. Only while a
batch is handed over, and after one that was rejected, the writer is ahead of the counter.

So a policy that agrees while records are counted leads to one background write, and one that agrees
to an empty counter leads to none.

## Main definitions

* `OffsetWriter.IsClear`: nothing is left to be confirmed.
* `Stage.isAhead`: where the writer is ahead of the counter.
* `Active.Agrees`: how counter and writer agree.

## Main results

* `Active.Agrees.step` — one step keeps counter and writer in agreement.
* `Host.Reaches.agrees` — they agree in every run.
* `Host.Reaches.commits_what_is_counted` — what a consulted policy leads to.
-/

namespace ChangeCapture

/-! ### Writers that are clear -/

namespace OffsetWriter

variable {w : OffsetWriter}

/-- **Whether nothing is left to be confirmed**: no position is pending, and none is outstanding. -/
def IsClear (w : OffsetWriter) : Prop :=
  ∀ k, w.uncommitted? k = none

/-- Without an outstanding snapshot, a writer is clear if nothing is pending. -/
theorem isClear_iff (hs : w.snapshot = none) : w.IsClear ↔ w.pending = [] := by
  refine ⟨fun hclear => ?_, fun hp k => by rw [uncommitted?, hp, hs]; rfl⟩
  cases hp : w.pending with
  | nil => rfl
  | cons e rest =>
    have hfound := hclear e.1
    rw [uncommitted?, hp, Dictionary.get?_cons, if_pos rfl] at hfound
    cases hfound

/-- A writer is not clear after a position was recorded. -/
theorem not_isClear_record (w : OffsetWriter) (p : Partition) (o : Offset) :
    ¬ (w.record p o).IsClear := by
  intro hclear
  have hfound := hclear (partitionKey p)
  rw [uncommitted?_record, if_pos rfl] at hfound
  cases hfound

end OffsetWriter

/-! ### Where the writer is ahead -/

/-- Whether a run leaves because a record was rejected. -/
def Phase.isRejected : Phase → Bool
  | .out (.error (.delivery _)) => true
  | _ => false

namespace Stage

/-- **Whether the writer of a run is ahead of its counter**: a batch is handed over, or was not taken
in full. -/
def isAhead (stage : Stage) : Bool :=
  match stage with
  | .delivering _ _ => true
  | _ => stage.phase.isRejected

variable {stage : Stage}

/-- The writer of a run that does not hand over a batch is ahead only after a rejection. -/
theorem isAhead_of_phase (hp : stage.phase ≠ .loop) : stage.isAhead = stage.phase.isRejected := by
  cases stage with
  | delivering => exact absurd rfl hp
  | _ => rfl

/-- The writer of a run that commits is not ahead. -/
theorem isAhead_of_isCommitting (h : stage.isCommitting = true) : stage.isAhead = false := by
  cases stage with
  | consulting final | flushing _ _ final => cases final <;> rfl
  | _ => cases h

/-- A run that leaves, though no record was rejected, waits for no write and is not ahead. -/
theorem of_out {result : RunResult} (hp : stage.phase = .out result)
    (hresult : ∀ report, result ≠ .error (.delivery report)) :
    (∀ n, stage.standing ≠ .waiting n) ∧ stage.isAhead = false := by
  refine ⟨fun n hwait => ?_, ?_⟩
  · cases stage with
    | flushing _ _ final => cases final <;> cases hp
    | _ => cases hwait
  · rw [isAhead_of_phase (by rw [hp]; nofun), hp, Phase.isRejected.eq_def]
    split
    · rename_i report heq
      exact absurd (Phase.out.inj heq) (hresult report)
    · rfl

end Stage

namespace Books

variable {s : Setup} {r : Nat} {h h' : Host} {a a' : Active} {es es₀ : List Event}

/-- A step keeps a writer in order. -/
theorem valid (hb : Books s r h (.active a) es (.active a') h') (hv : a.writer.Valid) :
    a'.writer.Valid := by
  cases hb with
  | keeps _ hw | hands _ _ hw | delivers hw => exact hw ▸ hv
  | receives _ _ hw => exact hw ▸ hv.record _ _
  | @submits _ _ _ _ w _ _ _ hbegin hs =>
    have hw : w.submit.2 = a'.writer := congrArg Prod.snd hs
    exact hw ▸ (hv.beginFlush hbegin).submit
  | refuses _ hbegin hs => exact hs ▸ (hv.beginFlush hbegin).submit
  | @commits _ _ _ _ _ write _ _ _ hw =>
    rw [hw]
    cases hc : a.writer.complete? write.flushId with
    | none => exact hv
    | some w => exact hv.complete? hc
  | givesUp _ hw => exact hw ▸ hv.cancelFlush

/-- A run has a snapshot outstanding only while it waits for its write. -/
theorem snapshot_eq_none (hb : Books s r h (.active a) es (.active a') h')
    (hl : Ledger s h.writes a es₀)
    (hs : (∀ n, a.stage.standing ≠ .waiting n) → a.writer.snapshot = none)
    (hst' : ∀ n, a'.stage.standing ≠ .waiting n) : a'.writer.snapshot = none := by
  cases hb with
  | keeps _ hw hst => exact hw ▸ hs hst
  | receives _ _ hw hst =>
    rw [hw]
    exact (hl.settled hst).1
  | hands _ _ hw hst | delivers hw hst => exact hw ▸ (hl.ahead _ _ hst).1
  | submits _ _ _ _ hwait => exact absurd hwait (hst' _)
  | refuses _ hbegin _ hno =>
    rw [Ledger.submit_of_beginFlush hl.format hbegin] at hno
    exact absurd rfl (hno _ _)
  | @commits _ _ _ _ n write _ hn _ hw hst =>
    obtain ⟨-, hsnapshot, w, hwn, hid, -⟩ := hl.waiting n hst
    obtain rfl := Option.some.inj (hwn.symm.trans hn)
    rw [hid, OffsetWriter.complete?_flushId hsnapshot, Option.getD_some] at hw
    rw [hw]
  | givesUp _ hw hst =>
    obtain ⟨-, hsnapshot, -⟩ := hl.waiting _ hst
    rw [OffsetWriter.cancelFlush_eq hsnapshot] at hw
    rw [hw]

/-- **Unless a position is recorded or a flush confirmed, a step leaves it** whether anything is left
to be confirmed. -/
theorem isClear_iff (hb : Books s r h (.active a) es (.active a') h')
    (hl : Ledger s h.writes a es₀) (hv : a.writer.Valid)
    (hrecord : a.stage.standing = .settled → ∀ rest batch, a'.stage.standing ≠ .ahead rest batch)
    (hcommit : ∀ n, .committed n ∉ es) : a'.writer.IsClear ↔ a.writer.IsClear := by
  have same : ∀ {w : OffsetWriter}, (∀ k, w.uncommitted? k = a.writer.uncommitted? k) →
      (w.IsClear ↔ a.writer.IsClear) := fun hw => forall_congr' fun k => by rw [hw k]
  cases hb with
  | keeps _ hw | hands _ _ hw | delivers hw => rw [hw]
  | receives _ _ _ hst hst' => exact absurd hst' (hrecord hst _ _)
  | @submits _ _ _ _ w _ _ _ hbegin hs =>
    have hw : w.submit.2 = a'.writer := congrArg Prod.snd hs
    refine same fun k => ?_
    rw [← hw, OffsetWriter.uncommitted?_submit (hv.beginFlush hbegin),
      OffsetWriter.uncommitted?_beginFlush hbegin]
  | refuses _ hbegin _ hno =>
    rw [Ledger.submit_of_beginFlush hl.format hbegin] at hno
    exact absurd rfl (hno _ _)
  | commits => exact absurd (List.mem_append_right _ List.mem_cons_self) (hcommit _)
  | givesUp _ hw =>
    rw [hw]
    exact same (OffsetWriter.uncommitted?_cancelFlush hv)

/-- With the batch that a run is given, a position is recorded. -/
theorem not_isClear_of_received {rest batch : List Record}
    (hb : Books s r h (.active a) es (.active a') h') (hst : a.stage.standing = .settled)
    (hst' : a'.stage.standing = .ahead rest batch) : ¬ a'.writer.IsClear := by
  cases hb with
  | receives _ _ hw =>
    rw [hw]
    exact a.writer.not_isClear_record _ _
  | keeps _ _ _ hs =>
    rw [hst, hst'] at hs
    rcases hs with hs | hs <;> cases hs
  | hands _ _ _ hs | delivers _ hs | commits _ _ _ _ _ hs | givesUp _ _ hs =>
    rw [hst] at hs
    cases hs
  | submits _ _ _ _ hs | refuses _ _ _ _ _ hs =>
    rw [hst'] at hs
    cases hs

/-- **After a confirmed flush nothing is left to be confirmed.** -/
theorem isClear_of_committed {n : Nat} (hb : Books s r h (.active a) es (.active a') h')
    (hl : Ledger s h.writes a es₀) (hn : .committed n ∈ es) : a'.writer.IsClear := by
  have plain : ∀ {es : List Event}, es.all Event.isPlain = true → .committed n ∉ es :=
    fun hes => Event.not_mem_of_all hes rfl
  cases hb with
  | keeps hes | receives hes | hands hes | refuses hes | givesUp hes => exact absurd hn (plain hes)
  | delivers => cases List.mem_singleton.mp hn
  | submits hes =>
    rcases List.mem_append.mp hn with hn | hn
    · exact absurd hn (plain hes)
    · cases List.mem_singleton.mp hn
  | @commits _ _ _ _ m write _ hm _ hw hst =>
    obtain ⟨hpending, hsnapshot, w, hwm, hid, -⟩ := hl.waiting m hst
    obtain rfl := Option.some.inj (hwm.symm.trans hm)
    rw [hid, OffsetWriter.complete?_flushId hsnapshot, Option.getD_some] at hw
    rw [hw]
    exact (OffsetWriter.isClear_iff rfl).mpr hpending

end Books

/-! ### How counter and writer agree -/

/-- **How the counter of a run and its writer agree**: nothing is counted exactly if nothing is left
to be confirmed, unless the writer is ahead. -/
structure Active.Agrees (a : Active) : Prop where
  valid : a.writer.Valid
  snapshot : (∀ n, a.stage.standing ≠ .waiting n) → a.writer.snapshot = none
  unused : a.stage.phase = .startUp → a.records = 0
  ahead : ∀ rest batch, a.stage = .delivering rest batch → batch ≠ [] ∧ ¬ a.writer.IsClear
  counted : a.stage.isAhead = false → (a.records = 0 ↔ a.writer.IsClear)

namespace Host

variable {s : Setup} {r : Nat} {h h' h₀ h₁ : Host} {a a' : Active} {st st' : RunStatus}
  {es es₀ : List Event} {l' : Lifecycle}

/-- A writer that is ahead stays so until its batch is delivered. -/
theorem Flow.ahead_cases (hflow : Flow s h (.active a) es (.active a') l') :
    a.stage.isAhead = false ∨ a'.stage.isAhead = true ∨
      ∃ batch, a.stage = .delivering [] batch ∧ a'.stage = .consulting false := by
  cases hflow with
  | prepares ha | begins ha =>
    exact .inl (by rw [Stage.isAhead_of_phase (by rw [ha]; nofun), ha]; rfl)
  | polls ha | stops ha | idles ha | receives ha | reports ha | fails ha =>
    exact .inl (by rw [ha]; rfl)
  | consults ha | flushes ha => exact .inl (Stage.isAhead_of_isCommitting (by rw [ha]; rfl))
  | heeds ha => exact .inl (by rcases ha with ha | ha <;> rw [ha] <;> rfl)
  | hands _ _ ha' | rejects _ _ _ ha' => exact .inr (.inl (by rw [ha']; rfl))
  | delivers ha ha' => exact .inr (.inr ⟨_, ha, ha'⟩)
  | releases ha _ ha' =>
    cases hahead : a.stage.isAhead with
    | false => exact .inl rfl
    | true =>
      rw [Stage.isAhead_of_phase (by rw [ha]; nofun), ha] at hahead
      exact .inr (.inl (by rw [Stage.isAhead_of_phase (by rw [ha']; nofun), ha', hahead]))

/-- A run that hands over a batch has just been given it, or has handed over one record more. -/
theorem Flow.delivering_cases {rest batch : List Record}
    (hflow : Flow s h (.active a) es (.active a') l') (ha' : a'.stage = .delivering rest batch) :
    a.stage = .polling ∧ batch ≠ [] ∨ ∃ x, a.stage = .delivering (x :: rest) batch := by
  have hloop : a'.stage.phase = .loop := by rw [ha']; rfl
  cases hflow with
  | prepares _ _ hp =>
    rcases hp with hp | ⟨e, hp⟩ <;> rw [hloop] at hp <;> cases hp
  | releases _ _ hp =>
    rw [hloop] at hp
    cases hp
  | begins _ _ hs | polls _ _ hs | stops _ _ hs | heeds _ _ hs | idles _ _ hs | reports _ _ hs
  | fails _ _ hs | rejects _ _ _ hs | delivers _ hs =>
    rw [ha'] at hs
    cases hs
  | @consults _ _ _ _ _ _ _ final _ _ _ hs =>
    rw [ha'] at hs
    rcases hs with hs | ⟨_, _, hs⟩
    · cases final <;> cases hs
    · cases hs
  | @flushes _ _ _ _ _ final _ _ hs =>
    rw [ha'] at hs
    cases final <;> cases hs
  | receives ha hs =>
    obtain ⟨rfl, rfl⟩ := Stage.delivering.inj (ha'.symm.trans hs)
    exact .inl ⟨ha, List.cons_ne_nil _ _⟩
  | hands _ ha hs =>
    obtain ⟨rfl, rfl⟩ := Stage.delivering.inj (ha'.symm.trans hs)
    exact .inr ⟨_, ha⟩

end Host

namespace Active.Agrees

variable {s : Setup} {r : Nat} {h h' : Host} {a a' : Active} {es es₀ : List Event} {l' : Lifecycle}

/-- Counter and writer agree as a run begins. -/
theorem opens (hb : Books s r h .requested es (.active a') h')
    (hc : Host.Counts s h .requested es (.active a')) : a'.Agrees := by
  cases hb with
  | opens _ hw =>
    have hclear : a'.writer.IsClear := (OffsetWriter.isClear_iff (by rw [hw])).mpr (by rw [hw])
    cases hc with
    | starts _ ha' hr =>
      refine ⟨hw ▸ .new _, fun _ => by rw [hw], fun _ => hr, fun rest batch hst => ?_, fun _ => ?_⟩
      · rw [hst] at ha'
        cases ha'
      · exact iff_of_true hr hclear

/-- A run on the way in after a step was so before it, and has counted nothing. -/
theorem records_eq_zero (hag : a.Agrees) (hc : Host.Counts s h (.active a) es (.active a'))
    (hup : a'.stage.phase = .startUp) : a'.records = 0 := by
  cases hc with
  | keeps _ _ _ hleads hc =>
    rw [hc.records]
    refine hag.unused ?_
    rcases hleads with hp | ⟨-, result, hp, -⟩
    · exact hp.symm.trans hup
    · rw [hp] at hup
      cases hup
  | begins _ _ _ hr => exact hr
  | delivers _ ha' | heeds _ _ ha' =>
    rw [ha'] at hup
    cases hup
  | @submits _ _ _ _ _ _ final _ _ _ _ ha' | @skips _ _ _ final _ _ _ ha'
  | @commits _ _ _ _ _ final _ _ ha' | @givesUp _ _ _ _ _ final _ ha' =>
    rw [ha'] at hup
    cases final <;> cases hup

/-- A batch that is handed over after a step is not empty, and its position was recorded. -/
theorem not_isClear_of_delivering (hag : a.Agrees)
    (hb : Books s r h (.active a) es (.active a') h') (hl : Ledger s h.writes a es₀)
    (hflow : Host.Flow s h (.active a) es (.active a') l') {rest batch : List Record}
    (ha' : a'.stage = .delivering rest batch) : batch ≠ [] ∧ ¬ a'.writer.IsClear := by
  obtain ⟨ha, hne⟩ | ⟨x, ha⟩ := hflow.delivering_cases ha'
  · exact ⟨hne, hb.not_isClear_of_received (by rw [ha]; rfl) (by rw [ha']; rfl)⟩
  · obtain ⟨hne, hahead⟩ := hag.ahead _ _ ha
    refine ⟨hne, ?_⟩
    rw [hb.isClear_iff hl hag.valid ?_ ?_]
    · exact hahead
    · rw [ha]
      rintro ⟨⟩
    · intro n hn
      obtain ⟨b, -, -, hst, hwait, -⟩ := hb.of_committed hn
      obtain rfl := RunStatus.active.inj hst
      rw [ha] at hwait
      cases hwait

/-- **One step keeps counter and writer in agreement.** -/
theorem step (hag : a.Agrees) (hb : Books s r h (.active a) es (.active a') h')
    (hl : Ledger s h.writes a es₀) (hc : Host.Counts s h (.active a) es (.active a'))
    (hflow : Host.Flow s h (.active a) es (.active a') l') : a'.Agrees where
  valid := hb.valid hag.valid
  snapshot := hb.snapshot_eq_none hl hag.snapshot
  unused := hag.records_eq_zero hc
  ahead _ _ := hag.not_isClear_of_delivering hb hl hflow
  counted ha' := by
    have clear : (∀ n, .committed n ∉ es) → (a'.writer.IsClear ↔ a.writer.IsClear) := by
      refine hb.isClear_iff hl hag.valid fun _ rest batch hst' => ?_
      cases hstage : a'.stage with
      | delivering =>
        rw [hstage] at ha'
        cases ha'
      | _ =>
        rw [hstage] at hst'
        cases hst'
    have same : a'.records = a.records → (∀ n, .committed n ∉ es) → a.stage.isAhead = false →
        (a'.records = 0 ↔ a'.writer.IsClear) := fun hrecords hno ha => by
      rw [hrecords, clear hno]
      exact hag.counted ha
    have uncounted : ∀ {es : List Event}, es.all Event.isUncounted = true → ∀ n, .committed n ∉ es :=
      fun hes n => Event.not_mem_of_all hes rfl
    have asked : ∀ n, .committed n ∉ consultation s h.now a := by simp [consultation]
    cases hc with
    | @keeps _ _ _ hes _ hno' _ hc =>
      refine same hc.records (uncounted hes) ?_
      obtain ha | hahead | ⟨_, -, hst'⟩ := hflow.ahead_cases
      · exact ha
      · rw [ha'] at hahead
        cases hahead
      · rw [hst'] at hno'
        cases hno'
    | begins hes ha _ hr =>
      refine same (hr.trans (hag.unused ha).symm) (by simpa using uncounted hes) ?_
      rw [Stage.isAhead_of_phase (by rw [ha]; rintro ⟨⟩), ha]
      rfl
    | delivers ha _ hr =>
      obtain ⟨hne, hahead⟩ := hag.ahead _ _ ha
      have hpos := List.length_pos_of_ne_nil hne
      exact iff_of_false (by omega) (by rwa [clear (by simp)])
    | heeds hes ha _ hc =>
      refine same hc.records (by simpa using uncounted hes) ?_
      rcases ha with ha | ha <;> rw [ha] <;> rfl
    | skips ha _ hes _ hc =>
      refine same hc.records (by simpa [asked] using uncounted hes) ?_
      exact Stage.isAhead_of_isCommitting (by rw [ha]; rfl)
    | submits ha _ _ _ _ hc =>
      refine same hc.records (by simpa using asked) ?_
      exact Stage.isAhead_of_isCommitting (by rw [ha]; rfl)
    | commits _ _ _ hr =>
      exact iff_of_true hr
        (hb.isClear_of_committed hl (List.mem_append_right _ List.mem_cons_self))
    | givesUp ha _ hc =>
      exact same hc.records (by simp) (Stage.isAhead_of_isCommitting (by rw [ha]; rfl))

end Active.Agrees

namespace Host

variable {s : Setup} {r : Nat} {h h' h₀ : Host} {a a' : Active}

/-- All that is known of a step is known of one and the same step. -/
theorem advance_known (hadv : h.advance s r = some h') :
    ∃ st es st' h₁, h.status? r = some st ∧ h.Act s r st es st' h₁ ∧ Counts s h st es st' ∧
      Flow s h st es st' h₁.lifecycle ∧ h' = h₁.setStatus r st' := by
  have together : ∀ {st p}, h.Acts s r st p → h.Counted s r st p → h.Flows s r st p →
      p.Leads fun st' h₁ => ∃ es, h.Act s r st es st' h₁ ∧ Counts s h st es st' ∧
        Flow s h st es st' h₁.lifecycle := by
    intro st p hact hcounts hflow
    refine ((hact.and hcounts).and hflow).imp ?_
    rintro st' h₁ ⟨⟨⟨es, hact⟩, es₁, hadds₁, hcounts⟩, es₂, hadds₂, hflow⟩
    obtain rfl := hact.adds.unique hadds₁
    obtain rfl := hact.adds.unique hadds₂
    exact ⟨es, hact, hcounts, hflow⟩
  obtain ⟨st, st', h₁, hst, ⟨es, hact, hcounts, hflow⟩, heq⟩ := advance_leads (s := s) (r := r)
    (Q := fun st st' h₁ => ∃ es, h.Act s r st es st' h₁ ∧ Counts s h st es st' ∧
      Flow s h st es st' h₁.lifecycle)
    (fun _ => together (begin_acts s r h) (begin_counted s r h) (begin_flows s r h))
    (fun a _ => together (step_acts s r a h) (step_counted s r a h) (step_flows s r a h))
    (fun st _ => together (dropRun_acts s r h st) (dropRun_counted s r h st)
      (dropRun_flows s r h st)) hadv
  exact ⟨st, es, st', h₁, hst, hact, hcounts, hflow, heq⟩

/-- **Counter and writer agree in every run.** -/
theorem Reaches.agrees (hf : h₀.Fresh) (hr : Reaches s h₀ h)
    (hst : h.status? r = some (.active a)) : a.Agrees := by
  induction hr generalizing a with
  | refl =>
    rw [hf.status?] at hst
    cases hst
  | @tail h h' hr hm ih =>
    refine hm.elim (fun hrests => ih (hrests.active hst))
      (fun _ _ _ _ hw => ih ((hw.status? r).symm.trans hst)) fun r' _ _ _ _ hadv _ _ _ _ => ?_
    obtain ⟨st, es, st', h₁, hst₁, hact, hcounts, hflow, rfl⟩ := advance_known hadv
    rw [hact.status? hst₁] at hst
    split at hst
    · rename_i hr'
      subst hr'
      obtain rfl := Option.some.inj hst
      cases st with
      | requested => exact .opens hact.books hcounts
      | active b =>
        exact (ih hst₁).step hact.books ((Reaches.booked hf hr).ledger r' b hst₁) hcounts hflow
      | ended outcome => exact absurd hst₁ (status?_ne_ended hadv outcome)
    · exact ih hst

/-- A run that consults its policy calls the store for nothing. -/
theorem store_of_consulting {final : Bool} (hp : h.consulting s r a final = .goesOn a' h') :
    h'.store = h.store := by
  rw [consulting, emitAll_eq] at hp
  split at hp
  · rw [flush] at hp
    split at hp
    · obtain ⟨-, rfl⟩ := Progress.goesOn.inj hp
      rw [emitAll_eq]
      rfl
    · obtain ⟨-, rfl⟩ := Progress.goesOn.inj hp
      rfl
    · rw [submit] at hp
      split at hp
      · obtain ⟨-, rfl⟩ := Progress.goesOn.inj hp
        rfl
      · obtain ⟨-, rfl⟩ := Progress.goesOn.inj hp
        rw [emitAll_eq]
        rfl
      · obtain ⟨-, rfl⟩ := Progress.goesOn.inj hp
        rfl
  · obtain ⟨-, rfl⟩ := Progress.goesOn.inj hp
    rfl

/-- **What a consulted policy leads to**: one background write if the policy agrees and something was
counted, and otherwise none. -/
theorem Reaches.consults_counted {final : Bool} (hf : h₀.Fresh) (hr : Reaches s h₀ h)
    (hst : h.status? r = some (.active a)) (ha : a.stage = .consulting final)
    (hab : h.isAborting r = false) :
    h.GoesOn s r fun a' h' => h'.store = h.store ∧ a.CountsAs a' ∧
      ((s.policy.fires a.records (h.now - a.lastCommit) = true ∧ a.records ≠ 0 →
        h'.writes = h.writes ++ [{ run := r, flushId := a.writer.flushId
                                   entries := s.offsetFormat.entriesOf a.writer.pending }] ∧
          a'.stage = .flushing h.writes.length (h.now + s.flushTimeout) final) ∧
      (¬ (s.policy.fires a.records (h.now - a.lastCommit) = true ∧ a.records ≠ 0) →
        h'.writes = h.writes ∧ a'.stage = (afterCommit a final).stage)) := by
  have hag := Reaches.agrees hf hr hst
  have hformat := ((Reaches.booked hf hr).ledger r a hst).format
  have hs : a.writer.snapshot = none := hag.snapshot (by rw [ha]; rintro _ ⟨⟩)
  have hiff : a.records = 0 ↔ a.writer.pending = [] :=
    (hag.counted (Stage.isAhead_of_isCommitting (by rw [ha]; rfl))).trans
      (OffsetWriter.isClear_iff hs)
  obtain ⟨a', h₁, hconsult, hruns, hbegins⟩ := consulting_begins s r final h hs
  have hstore := store_of_consulting hconsult
  refine goesOn_of_step hab hst (by rw [step, ha]; exact hconsult) hruns ⟨hstore, ?_⟩
  cases hbegins with
  | passes hno _ hcounters _ hwrites hstage =>
    refine ⟨hcounters, ?_, fun _ => ⟨hwrites, hstage⟩⟩
    rintro ⟨hfires, hne⟩
    rcases hno with hno | hnil
    · rw [hfires] at hno
      cases hno
    · exact absurd (hiff.mpr hnil) hne
  | refuses _ hbegin hsubmit =>
    rw [Ledger.submit_of_beginFlush hformat hbegin] at hsubmit
    cases hsubmit
  | submits hfires hbegin hsubmit hcounters _ hwrites hstage =>
    refine ⟨hcounters, fun _ => ⟨?_, hstage⟩, fun hno => absurd ⟨hfires, fun hzero => ?_⟩ hno⟩
    · rw [Ledger.submit_of_beginFlush hformat hbegin] at hsubmit
      obtain ⟨hsub, -⟩ := Prod.mk.inj hsubmit
      obtain ⟨rfl, rfl⟩ := Submission.submitted.inj hsub
      exact hwrites
    · obtain ⟨-, hne, -⟩ := OffsetWriter.beginFlush_eq_ok_some hbegin
      exact hne (hiff.mp hzero)

/-- Only a consulted policy leads to a write. -/
theorem writes_length_of_not_consulting (hst : h.status? r = some (.active a))
    (ha : ∀ final, a.stage ≠ .consulting final) (hadv : h.advance s r = some h') :
    h'.writes.length = h.writes.length := by
  obtain ⟨st, es, st', h₁, hst₁, hact, hcounts, -, rfl⟩ := advance_known hadv
  obtain rfl := Option.some.inj (hst.symm.trans hst₁)
  change h₁.writes.length = _
  obtain hws | ⟨a', w, rfl, hwait, -⟩ | ⟨n, hws⟩ := hact.books.writes_cases
  · rw [hws]
  · cases hstage : a'.stage with
    | flushing n deadline final =>
      obtain ⟨b, -, hb, hconsults, -⟩ := hcounts.of_flushing hstage
      obtain rfl := RunStatus.active.inj hb
      exact absurd hconsults (ha final)
    | _ =>
      rw [hstage] at hwait
      cases hwait
  · rw [hws, List.length_modify]

/-- **Counter and writer agree, and a policy commits what is counted.** In every run all positions
that the writer holds stand under the text of their own partition, and an outstanding snapshot is not
empty. Where the run is at the top of its loop or polls, where it consults its policy, and after its
loop unless a record was rejected, no snapshot is outstanding, and nothing is counted exactly if
nothing is pending.

So a policy that agrees while something is counted leads to one background write, of all that is
pending; one that agrees to nothing, or does not agree, leads to none, and the store is not called.
No other step of a run starts a write. -/
theorem Reaches.commits_what_is_counted (hf : h₀.Fresh) (hr : Reaches s h₀ h)
    (hst : h.status? r = some (.active a)) :
    (∀ e ∈ a.writer.pending, e.1 = partitionKey e.2.1) ∧
    (∀ positions, a.writer.snapshot = some positions →
      positions ≠ [] ∧ ∀ e ∈ positions, e.1 = partitionKey e.2.1) ∧
    (a.stage = .looping ∨ a.stage = .polling ∨ (∃ final, a.stage = .consulting final) ∨
        (∃ result, a.stage.phase = .out result ∧ ∀ report, result ≠ .error (.delivery report)) →
      a.writer.snapshot = none ∧ (a.records = 0 ↔ a.writer.pending = [])) ∧
    (∀ final, a.stage = .consulting final → h.isAborting r = false →
      h.GoesOn s r fun a' h' => h'.store = h.store ∧ a.CountsAs a' ∧
        ((s.policy.fires a.records (h.now - a.lastCommit) = true ∧ a.records ≠ 0 →
          h'.writes = h.writes ++ [{ run := r, flushId := a.writer.flushId
                                     entries := s.offsetFormat.entriesOf a.writer.pending }] ∧
            a'.stage = .flushing h.writes.length (h.now + s.flushTimeout) final) ∧
        (¬ (s.policy.fires a.records (h.now - a.lastCommit) = true ∧ a.records ≠ 0) →
          h'.writes = h.writes ∧ a'.stage = (afterCommit a final).stage))) ∧
    ((∀ final, a.stage ≠ .consulting final) → ∀ h', h.advance s r = some h' →
      h'.writes.length = h.writes.length) := by
  have hag := Reaches.agrees hf hr hst
  refine ⟨hag.valid.pending.keyed, fun positions hs => ?_, fun hstage => ?_,
    fun final ha hab => Reaches.consults_counted hf hr hst ha hab,
    fun ha h' hadv => writes_length_of_not_consulting hst ha hadv⟩
  · obtain ⟨hvalid, hne⟩ := hag.valid.snapshot positions hs
    exact ⟨hne, hvalid.keyed⟩
  · obtain ⟨hwait, hahead⟩ : (∀ n, a.stage.standing ≠ .waiting n) ∧ a.stage.isAhead = false := by
      obtain ha | ha | ⟨final, ha⟩ | ⟨result, ha, hresult⟩ := hstage
      · rw [ha]
        exact ⟨nofun, rfl⟩
      · rw [ha]
        exact ⟨nofun, rfl⟩
      · exact ⟨by rw [ha]; nofun, Stage.isAhead_of_isCommitting (by rw [ha]; rfl)⟩
      · exact Stage.of_out ha hresult
    have hs := hag.snapshot hwait
    exact ⟨hs, (hag.counted hahead).trans (OffsetWriter.isClear_iff hs)⟩

end Host

/-- The records that a run counts while it consults its policy, and whether it does so for the last
time. -/
def RunStatus.consulting? : RunStatus → Option (Nat × Bool)
  | .active { stage := .consulting final, records, .. } => some (records, final)
  | _ => none

namespace Host

/-- A run that consults its policy is active, and stands at that. -/
theorem exists_of_consulting? {h : Host} {r n : Nat} {final : Bool}
    (hconsults : (h.status? r).bind RunStatus.consulting? = some (n, final)) :
    ∃ a, h.status? r = some (.active a) ∧ a.stage = .consulting final ∧ a.records = n := by
  obtain ⟨st, hst, hconsults⟩ := Option.bind_eq_some_iff.mp hconsults
  rw [RunStatus.consulting?.eq_def] at hconsults
  split at hconsults
  · obtain ⟨rfl, rfl⟩ := Prod.mk.inj (Option.some.inj hconsults)
    exact ⟨_, hst, rfl, rfl⟩
  · cases hconsults

/-- The write of a first flush fails, and another record of the same partition is delivered: both
records are counted, and one write is to be made for them. -/
theorem commits_after_failed_write :
    let s : Setup :=
      { config := { name := "engine", connectorClass := "source", flushTimeout := 5000
                    keyConverter := .json, valueConverter := .json, properties := [] }
        registry := Registry.empty.register "source" {}
        consumer := fun _ => {} }
    let x (row : Nat) : Record :=
      { partition := [("shard", .number (.integer 1))]
        offset := [("row", .number (.integer row))]
        topic := "rows", key := none, value := .null, timestamp := none }
    let plan : StorePlan := { sets := fun _ => .answers 0 (some .flushAborted) }
    let h₀ : Host := { feed := [.batch [x 1], .batch [x 2]], store := { plan } }
    let h := ((h₀.request.runOn s 0 20).turnWrite 0).runOn s 0 5
    ∃ a, h.status? 0 = some (.active a) ∧ a.stage = .consulting false ∧ a.records = 2 ∧
      a.writer.pending ≠ [] ∧
      h.GoesOn s 0 fun a' h' => h'.writes.length = h.writes.length + 1 ∧
        ∃ deadline, a'.stage = .flushing h.writes.length deadline false := by
  intro s x plan h₀ h
  have hf : h₀.Fresh := ⟨rfl, rfl, rfl, rfl⟩
  have hr : Reaches s h₀ h :=
    Reaches.runOn (.tail (Reaches.runOn (.tail .refl .request) 0 20) (.write 0)) 0 5
  have hconsults : (h.status? 0).bind RunStatus.consulting? = some (2, false) := by decide +kernel
  have hab : h.isAborting 0 = false := by decide +kernel
  have hfires : ∀ elapsed, s.policy.fires 2 elapsed = true := fun _ => rfl
  clear_value h
  obtain ⟨a, hst, ha, hrecords⟩ := exists_of_consulting? hconsults
  obtain ⟨-, -, hagree, hcommits, -⟩ := Reaches.commits_what_is_counted hf hr hst
  obtain ⟨-, hpending⟩ := hagree (.inr (.inr (.inl ⟨false, ha⟩)))
  obtain ⟨a', h', hadv, hst', -, -, hwrites, -⟩ := hcommits false ha hab
  obtain ⟨hwrites, hstage⟩ := hwrites ⟨by rw [hrecords]; exact hfires _, by omega⟩
  refine ⟨a, hst, ha, hrecords, fun hnil => ?_, a', h', hadv, hst', ?_, _, hstage⟩
  · have hzero := hpending.mpr hnil
    omega
  · rw [hwrites]
    exact List.length_append

end Host

end ChangeCapture
