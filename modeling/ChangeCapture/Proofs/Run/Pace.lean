import ChangeCapture.Proofs.Run.Flushes

/-!
# The pace of a host

Moves say what may happen, not how soon. An executor adds two things. It drops a run only where the
run waits: from a poll to the wait for a flush, nobody comes in between, however long the consumer
takes over a record. And if it is never late, it lets time go by only while every run waits or is in
such a stretch, so what else a run could do at an instant is done at that instant.

So an alarm that a run has set goes off when it is due. When the deadline of a flush has come the
run can go on whatever the store does, and therefore no flush is open for longer than the commit
timeout.

## Main definitions

* `Stage.isUnbroken`: where a run is not dropped.
* `Host.Unbroken`: a move that drops runs only where they may wait.
* `Host.Prompt`: what an executor that is never late adds to a move.
* `Host.ReachesUnbroken`, `Host.ReachesPromptly`: such moves, one after the other.
* `ClosesInTime`: a flush that is confirmed or given up before it is too late.

## Main results

* `Host.ReachesUnbroken.not_isAborting` — no run is dropped between a poll and its wait for a flush.
* `Host.Reaches.deadline_eq` — the deadline of a flush is the commit timeout after its submission.
* `Host.ReachesPromptly.now_le` — a run waits for a flush up to its deadline at most.
* `Host.ReachesPromptly.closes_in_time` — every flush is confirmed or given up by then.
-/

namespace ChangeCapture

/-- Whether a run is between a poll and its wait for a flush: it hands records over and consults the
policy, and waits for nothing. -/
def Stage.isUnbroken : Stage → Bool
  | .delivering _ _ | .consulting _ => true
  | _ => false

namespace Host

/-- Whether the run of a number is to be dropped. -/
def isAborting (r : Nat) (h : Host) : Bool :=
  (h.runs[r]?).any Run.aborting

/-- **Whether a move drops runs only where they may wait.** -/
def Unbroken (h h' : Host) : Prop :=
  ∀ r a, h.status? r = some (.active a) → a.stage.isUnbroken = true →
    h'.isAborting r = true → h.isAborting r = true

/-- **What an executor that is never late adds to a move.** A run is dropped only where it may wait,
and time goes by only while every run waits or is where it is not dropped. -/
structure Prompt (s : Setup) (h h' : Host) : Prop where
  unbroken : Unbroken h h'
  waits : ∀ r now, h.now ≤ now → now < h'.now → { h with now }.advance s r = none ∨
    ∃ a, h.status? r = some (.active a) ∧ a.stage.isUnbroken = true

/-- **Any moves of an executor**, one after the other, however late they are. -/
def ReachesUnbroken (s : Setup) : Host → Host → Prop :=
  Relation.ReflTransGen fun h h' => Move s h h' ∧ Unbroken h h'

/-- **Any moves of an executor that is never late**, one after the other. -/
def ReachesPromptly (s : Setup) : Host → Host → Prop :=
  Relation.ReflTransGen fun h h' => Move s h h' ∧ Prompt s h h'

variable {s : Setup} {r r' n deadline : Nat} {h h' h₀ : Host} {st st' : RunStatus}
  {es : List Event} {a a' : Active} {final : Bool}

/-- What a host reaches under an executor, it reaches. -/
theorem ReachesUnbroken.reaches (hr : ReachesUnbroken s h₀ h) : Reaches s h₀ h :=
  Relation.ReflTransGen.mono (fun _ _ hm => hm.1) _ _ hr

/-- An executor that is never late is an executor. -/
theorem ReachesPromptly.unbroken (hr : ReachesPromptly s h₀ h) : ReachesUnbroken s h₀ h :=
  Relation.ReflTransGen.mono (fun _ _ hm => ⟨hm.1, hm.2.unbroken⟩) _ _ hr

/-- What a host reaches under an executor that is never late, it reaches. -/
theorem ReachesPromptly.reaches (hr : ReachesPromptly s h₀ h) : Reaches s h₀ h :=
  hr.unbroken.reaches

/-! ### Where a run stands -/

/-- **What has happened stays in the history**, and only what is newer comes to it. -/
theorem Move.exists_newer (hm : Move s h h') : ∃ newer, h'.history = newer ++ h.history := by
  refine hm.elim (fun hrests => ⟨[], hrests.history⟩) (fun _ _ _ _ hw => ⟨_, hw.adds.history⟩)
    fun _ _ _ _ h₁ _ _ _ hact heq => ?_
  subst heq
  exact ⟨_, hact.adds.history⟩

/-- **What a run comes to where it stands, and keeps while it stands there, is true of it**, for any
kind of moves. -/
theorem standing {R : Host → Host → Prop} {P : Host → Active → Prop} (hf : h₀.Fresh)
    (moves : ∀ {h h'}, R h h' → Move s h h')
    (stays : ∀ {h h' : Host} {a}, R h h' → h.status? r = some (.active a) → P h a → P h' a)
    (steps : ∀ {h h' : Host} {a}, h.advance s r = some h' → h'.status? r = some (.active a) →
      P h' a)
    (hr : Relation.ReflTransGen R h₀ h) (hst : h.status? r = some (.active a)) : P h a := by
  induction hr generalizing a with
  | refl =>
    rw [hf.status?] at hst
    cases hst
  | @tail h h' hr hm ih =>
    have kept : h.status? r = some (.active a) → P h' a := fun hbefore =>
      stays hm hbefore (ih hbefore)
    refine (moves hm).elim (fun hrests => kept (hrests.active hst))
      (fun _ _ _ _ hw => kept ((hw.status? r).symm.trans hst))
      fun r' st es st' h₁ hadv hst₁ _ hact heq => ?_
    by_cases hrun : r' = r
    · exact steps (hrun ▸ hadv) hst
    · subst heq
      rw [hact.status? hst₁, if_neg hrun] at hst
      exact kept hst

/-! ### Dropped runs -/

/-- A step leaves it which runs are to be dropped. -/
theorem isAborting_advance (hadv : h.advance s r = some h') (r' : Nat) :
    h'.isAborting r' = h.isAborting r' := by
  obtain ⟨st, es, st', h₁, -, hadds, -, rfl⟩ := advance_counts hadv
  rw [isAborting, setStatus, List.getElem?_modify, hadds.runs, isAborting]
  cases h.runs[r']? with
  | none => rfl
  | some run => by_cases hr : r = r' <;> simp [hr]

/-- **Steps drop nobody.** -/
theorem Unbroken.advance (hadv : h.advance s r = some h') : Unbroken h h' := by
  intro r' a _ _ hab
  rwa [isAborting_advance hadv] at hab

/-- A move that leaves the runs alone drops nobody. -/
theorem Unbroken.of_runs (hruns : h'.runs = h.runs) : Unbroken h h' := by
  intro r a _ _ hab
  rwa [isAborting, hruns] at hab

/-- A run that is asked for is not dropped, and neither is another one. -/
theorem Unbroken.request : Unbroken h h.request := by
  intro r a hst _ hab
  obtain ⟨run, hrun, -⟩ := Option.map_eq_some_iff.mp hst
  rwa [isAborting, Host.request,
    List.getElem?_append_left (List.getElem?_eq_some_iff.mp hrun).1] at hab

/-- A move that takes no time is prompt if it drops runs only where they may wait. -/
theorem Unbroken.prompt (hu : Unbroken h h') (hnow : h'.now = h.now) : Prompt s h h' where
  unbroken := hu
  waits r now hle hlt := by omega

/-- A turn of a write takes no time. -/
theorem Prompt.write (n : Nat) : Prompt s h (h.turnWrite n) := by
  obtain heq | ⟨w, status, es, hw⟩ := turnWrite_cases n h
  · rw [heq]
    exact (Unbroken.of_runs rfl).prompt rfl
  · exact (Unbroken.of_runs hw.adds.runs).prompt hw.adds.now

/-- A run that goes on takes steps. -/
theorem ReachesUnbroken.runOn (hr : ReachesUnbroken s h₀ h) (r fuel : Nat) :
    ReachesUnbroken s h₀ (h.runOn s r fuel) :=
  runOn_of_steps (P := ReachesUnbroken s h₀) (fun hadv hr => hr.tail ⟨.run r hadv, .advance hadv⟩)
    hr fuel

/-- Time goes by, whatever a run could do. -/
theorem ReachesUnbroken.pass (hr : ReachesUnbroken s h₀ h) {now : Nat} (hnow : h.now ≤ now) :
    ReachesUnbroken s h₀ { h with now } :=
  hr.tail ⟨.pass hnow, .of_runs rfl⟩

/-- A run that goes on takes steps, and no time. -/
theorem ReachesPromptly.runOn (hr : ReachesPromptly s h₀ h) (r fuel : Nat) :
    ReachesPromptly s h₀ (h.runOn s r fuel) :=
  runOn_of_steps (P := ReachesPromptly s h₀)
    (fun hadv hr => hr.tail ⟨.run r hadv, (Unbroken.advance hadv).prompt (now_advance hadv)⟩)
    hr fuel

/-- A run is asked for. -/
theorem ReachesPromptly.request (hr : ReachesPromptly s h₀ h) : ReachesPromptly s h₀ h.request :=
  hr.tail ⟨.request, Unbroken.request.prompt rfl⟩

/-- A run that is to be dropped takes no other step. -/
theorem advance_eq_drop (hab : h.isAborting r = true) (hst : h.status? r = some st) :
    h.advance s r = absorb r (h.dropRun r st) := by
  obtain ⟨run, hrun, rfl⟩ := Option.map_eq_some_iff.mp hst
  rw [isAborting, hrun, Option.any_some] at hab
  rw [Host.advance, hrun]
  exact congrArg (absorb r) (if_pos hab)

/-- A run that is not to be dropped takes the step from where it stands. -/
theorem advance_eq_step (hab : h.isAborting r = false) (hst : h.status? r = some (.active a)) :
    h.advance s r = absorb r (h.step s r a) := by
  obtain ⟨run, hrun, hactive⟩ := Option.map_eq_some_iff.mp hst
  rw [isAborting, hrun, Option.any_some] at hab
  rw [Host.advance, hrun]
  dsimp only
  rw [hab, hactive, if_neg Bool.false_ne_true]

/-- A run that is dropped has ended so. -/
theorem status?_of_isAborting (hab : h.isAborting r = true) (hst : h.status? r = some st)
    (hadv : h.advance s r = some h') : h'.status? r = some (.ended .aborted) := by
  rw [advance_eq_drop hab hst] at hadv
  cases st with
  | requested | active a =>
    obtain rfl := Option.some.inj hadv
    rw [status?_setStatus, if_pos rfl]
    exact congrArg (Option.map fun _ => RunStatus.ended .aborted) hst
  | ended outcome => cases hadv

/-- A run that has taken a step and has not ended took it from where it stood. -/
theorem step_of_advance (hadv : h.advance s r = some h') (hst : h.status? r = some (.active a))
    (hst' : h'.status? r = some (.active a')) :
    ∃ h₁, h.step s r a = .goesOn a' h₁ ∧ h' = h₁.setStatus r (.active a') := by
  have hab : h.isAborting r = false := by
    refine Bool.eq_false_iff.mpr fun hab => ?_
    rw [status?_of_isAborting hab hst hadv] at hst'
    cases hst'
  rw [advance_eq_step hab hst] at hadv
  generalize h.step s r a = p at hadv ⊢
  cases p with
  | blocked => cases hadv
  | goesOn b h₁ =>
    obtain rfl := Option.some.inj hadv
    rw [status?_setStatus, if_pos rfl] at hst'
    obtain ⟨_, -, hb⟩ := Option.map_eq_some_iff.mp hst'
    obtain rfl := RunStatus.active.inj hb
    exact ⟨h₁, rfl, rfl⟩
  | ends outcome h₁ =>
    obtain rfl := Option.some.inj hadv
    rw [status?_setStatus, if_pos rfl] at hst'
    obtain ⟨_, -, hb⟩ := Option.map_eq_some_iff.mp hst'
    cases hb

/-- **No run is dropped between a poll and its wait for a flush.** -/
theorem ReachesUnbroken.not_isAborting (hf : h₀.Fresh) (hr : ReachesUnbroken s h₀ h)
    (hst : h.status? r = some (.active a)) (ha : a.stage.isUnbroken = true) :
    h.isAborting r = false := by
  refine standing (P := fun h a => a.stage.isUnbroken = true → h.isAborting r = false) hf
    (fun hm => hm.1) ?_ ?_ hr hst ha
  · intro h h' a hm hst hold ha
    refine Bool.eq_false_iff.mpr fun hab => ?_
    have hbefore := hm.2 r a hst ha hab
    rw [hold ha] at hbefore
    cases hbefore
  · intro h h' a hadv hst' ha
    obtain ⟨st, es, st', h₁, hst, -⟩ := advance_counts hadv
    rw [isAborting_advance hadv]
    refine Bool.eq_false_iff.mpr fun hab => ?_
    rw [status?_of_isAborting hab hst hadv] at hst'
    cases hst'

/-! ### Deadlines -/

/-- A flush is waited for up to the commit timeout after the policy was consulted. -/
theorem deadline_of_consulting {number : Nat} {final' : Bool}
    (hp : h.consulting s r a final = .goesOn a' h')
    (ha' : a'.stage = .flushing number deadline final') : deadline = h.now + s.flushTimeout := by
  have idle : ∀ {b : Active}, (afterCommit b final).stage ≠ .flushing number deadline final' := by
    intro b
    cases final <;> rintro ⟨⟩
  rw [consulting, emitAll_eq] at hp
  split at hp
  · rw [flush] at hp
    split at hp
    · obtain ⟨rfl, -⟩ := Progress.goesOn.inj hp
      exact absurd ha' idle
    · obtain ⟨rfl, -⟩ := Progress.goesOn.inj hp
      exact absurd ha' idle
    · rw [submit] at hp
      split at hp
      · obtain ⟨rfl, -⟩ := Progress.goesOn.inj hp
        exact absurd ha' idle
      · obtain ⟨rfl, -⟩ := Progress.goesOn.inj hp
        exact absurd ha' idle
      · obtain ⟨rfl, -⟩ := Progress.goesOn.inj hp
        exact (Stage.flushing.inj ha').2.1.symm
  · obtain ⟨rfl, -⟩ := Progress.goesOn.inj hp
    exact absurd ha' idle

/-- **A run waits for a flush only once the policy has agreed** to it, in the same step. -/
theorem Counts.of_flushing (hc : Counts s h st es (.active a'))
    (ha' : a'.stage = .flushing n deadline final) :
    ∃ a entries, st = .active a ∧ a.stage = .consulting final ∧
      s.policy.fires a.records (h.now - a.lastCommit) = true ∧
      es = consultation s h.now a ++ [.submitted n entries] ∧ a.CountsAs a' := by
  have hcommit : a'.stage.isCommitting = true := by rw [ha']; rfl
  cases hc with
  | starts _ hp =>
    rw [Stage.isCommitting_of_phase (by rw [hp]; nofun) (by rw [hp]; nofun)] at hcommit
    cases hcommit
  | keeps _ _ hno =>
    rw [hno] at hcommit
    cases hcommit
  | begins _ _ hs | delivers _ hs | heeds _ _ hs =>
    rw [ha'] at hs
    cases hs
  | @skips _ _ _ f _ _ _ hs | @commits _ _ _ _ _ f _ _ hs | @givesUp _ _ _ _ _ f _ hs =>
    rw [hs] at hcommit
    cases f <;> cases hcommit
  | @submits a _ w flushId d entries f ha hfires hbegin hsubmit hs hc =>
    obtain ⟨rfl, rfl, rfl⟩ := Stage.flushing.inj (ha'.symm.trans hs)
    exact ⟨a, entries, rfl, ha, hfires, rfl, hc⟩

/-- A run that waits for a flush after a step has just submitted it, and set its alarm. -/
theorem submitted_of_advance (hadv : h.advance s r = some h')
    (hst' : h'.status? r = some (.active a')) (ha' : a'.stage = .flushing n deadline final) :
    deadline = h.now + s.flushTimeout ∧
      ∃ entries, ⟨r, h.now, .submitted n entries⟩ ∈ h'.history := by
  obtain ⟨st, es, st₁, h₁, hst, hadds, hc, heq⟩ := advance_counts hadv
  have hactive := hst'
  rw [heq, hadds.status?_setStatus hst, if_pos rfl] at hactive
  obtain rfl := Option.some.inj hactive
  obtain ⟨a, entries, rfl, ha, -, rfl, -⟩ := hc.of_flushing ha'
  obtain ⟨h₂, hstep, -⟩ := step_of_advance hadv hst hst'
  rw [step, ha] at hstep
  refine ⟨deadline_of_consulting hstep ha', entries, ?_⟩
  rw [heq]
  change _ ∈ h₁.history
  rw [hadds.history]
  simp

/-- **The deadline of a flush** is the commit timeout after its submission. -/
theorem Reaches.deadline_eq (hf : h₀.Fresh) (hr : Reaches s h₀ h)
    (hst : h.status? r = some (.active a)) (ha : a.stage = .flushing n deadline final) :
    ∃ t entries, ⟨r, t, .submitted n entries⟩ ∈ h.history ∧ deadline = t + s.flushTimeout := by
  refine standing (P := fun h a => a.stage = .flushing n deadline final →
    ∃ t entries, ⟨r, t, .submitted n entries⟩ ∈ h.history ∧ deadline = t + s.flushTimeout) hf id
    ?_ ?_ hr hst ha
  · intro h h' a hm _ hold ha
    obtain ⟨t, entries, hmem, ht⟩ := hold ha
    obtain ⟨newer, hnewer⟩ := hm.exists_newer
    exact ⟨t, entries, hnewer ▸ List.mem_append_right newer hmem, ht⟩
  · intro h h' a hadv hst' ha
    obtain ⟨ht, entries, hmem⟩ := submitted_of_advance hadv hst' ha
    exact ⟨h.now, entries, hmem, ht⟩

/-- **When its deadline has come, a run goes on**, whatever became of the write. -/
theorem advance_of_deadline (hst : h.status? r = some (.active a))
    (ha : a.stage = .flushing n deadline final) (hdue : deadline ≤ h.now) :
    h.advance s r ≠ none := by
  cases hab : h.isAborting r with
  | true =>
    rw [advance_eq_drop hab hst]
    exact Option.some_ne_none _
  | false =>
    rw [advance_eq_step hab hst, step, ha]
    dsimp only
    rw [flushing]
    split
    · exact Option.some_ne_none _
    · split
      · exact Option.some_ne_none _
      · split
        · rw [commit]
          split <;> exact Option.some_ne_none _
        · exact Option.some_ne_none _
        · exact Option.some_ne_none _

/-- **A run waits for a flush up to its deadline at most.** -/
theorem ReachesPromptly.now_le (hf : h₀.Fresh) (hr : ReachesPromptly s h₀ h)
    (hst : h.status? r = some (.active a)) (ha : a.stage = .flushing n deadline final) :
    h.now ≤ deadline := by
  refine standing (P := fun h a => a.stage = .flushing n deadline final → h.now ≤ deadline) hf
    (fun hm => hm.1) ?_ ?_ hr hst ha
  · -- Time stops at the deadline, for the run could go on there.
    intro h h' a hm hst hold ha
    refine Nat.not_lt.mp fun hlt => ?_
    obtain hwaits | ⟨b, hb, hunbroken⟩ := hm.2.waits r deadline (hold ha) hlt
    · exact advance_of_deadline (h := { h with now := deadline }) hst ha (Nat.le_refl _) hwaits
    · obtain rfl := RunStatus.active.inj (Option.some.inj (hst.symm.trans hb))
      rw [ha] at hunbroken
      cases hunbroken
  · intro h h' a hadv hst' ha
    obtain ⟨ht, -⟩ := submitted_of_advance hadv hst' ha
    rw [now_advance hadv, ht]
    exact Nat.le_add_right _ _

/-! ### Flushes that are closed in time -/

end Host

/-- **Whether a flush that is confirmed or given up was submitted no longer ago than the commit
timeout**, by the same run. -/
def ClosesInTime (s : Setup) (x : HistoryEntry) (earlier : List HistoryEntry) : Prop :=
  ∀ n, x.event = .committed n ∨ x.event = .givenUp n →
    ∃ t entries, ⟨x.run, t, .submitted n entries⟩ ∈ earlier ∧ x.instant ≤ t + s.flushTimeout

namespace Host

variable {s : Setup} {r n : Nat} {h h' h₀ : Host} {st st' : RunStatus} {es : List Event}

/-- Whether an event confirms a flush or gives it up. -/
theorem Counts.closes (hc : Counts s h st es st')
    (hm : .committed n ∈ es ∨ .givenUp n ∈ es) :
    ∃ a deadline final, st = .active a ∧ a.stage = .flushing n deadline final := by
  have uncounted : ∀ {es : List Event}, es.all Event.isUncounted = true →
      ¬ (.committed n ∈ es ∨ .givenUp n ∈ es) := by
    rintro es hes (hm | hm)
    · exact Event.not_mem_of_all hes rfl hm
    · exact Event.not_mem_of_all hes rfl hm
  cases hc with
  | starts hes | ends hes | keeps hes => exact absurd hm (uncounted hes)
  | begins hes | heeds hes => exact absurd (by simpa using hm) (uncounted hes)
  | delivers => simp at hm
  | skips _ _ hes => exact absurd (by simpa [consultation] using hm) (uncounted hes)
  | submits => simp [consultation] at hm
  | commits ha hes =>
    rcases hm with hm | hm
    · rcases List.mem_append.mp hm with hm | hm
      · exact absurd (.inl hm) (uncounted hes)
      · obtain rfl := Event.committed.inj (List.mem_singleton.mp hm)
        exact ⟨_, _, _, rfl, ha⟩
    · exact absurd (.inr (by simpa using hm)) (uncounted hes)
  | givesUp ha =>
    obtain rfl : n = _ := by simpa using hm
    exact ⟨_, _, _, rfl, ha⟩

/-- **Every flush is confirmed or given up within the commit timeout.** -/
theorem ReachesPromptly.closes_in_time (hf : h₀.Fresh) (hr : ReachesPromptly s h₀ h) :
    Throughout (ClosesInTime s) h.history := by
  induction hr with
  | refl =>
    rw [hf.history]
    trivial
  | @tail h h' hr hm ih =>
    refine hm.1.elim (fun hrests => hrests.history ▸ ih) (fun m w status es hw => ?_)
      fun r st es st' h₁ hadv _ _ _ _ => ?_
    · refine ih.adds hw.adds fun e he between n hn => ?_
      rcases hw.events e he with rfl | ⟨_, rfl⟩ | rfl <;> rcases hn with hn | hn <;> cases hn
    · obtain ⟨st, es, st', h₁, hst, hadds, hc, rfl⟩ := advance_counts hadv
      change Throughout (ClosesInTime s) h₁.history
      refine ih.adds hadds fun e he between n hn => ?_
      obtain ⟨a, deadline, final, rfl, ha⟩ := hc.closes (n := n) <| by
        rcases hn with hn | hn
        · exact .inl (hn ▸ he)
        · exact .inr (hn ▸ he)
      obtain ⟨t, entries, hmem, ht⟩ := Reaches.deadline_eq hf (ReachesPromptly.reaches hr) hst ha
      exact ⟨t, entries, List.mem_append_right _ hmem, ht ▸ ReachesPromptly.now_le hf hr hst ha⟩

end Host

end ChangeCapture
