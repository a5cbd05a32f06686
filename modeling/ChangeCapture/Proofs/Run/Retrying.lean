import ChangeCapture.Proofs.Policy
import ChangeCapture.Proofs.Run.Counts
import ChangeCapture.Proofs.Run.Ledger

/-!
# Retry on the next cycle

A flush that is submitted and not confirmed leaves what made the policy agree: the counters have
only grown since, and what the flush carried is pending again. So a built-in policy agrees the next
time that it is consulted, and the next time after that, until a flush is confirmed.

## Main definitions

* `isUnconfirmed`: whether a flush was submitted since the last confirmed one.
* `Retries`: what is kept of an unconfirmed flush.
* `Consults`: the policy is consulted where it has to be.

## Main results

* `Host.Counts.retries` — one step keeps what a retry needs.
* `Host.Reaches.retries_unconfirmed` — an unconfirmed flush is followed by another whenever the
  policy is consulted.
-/

namespace ChangeCapture

/-! ### Unconfirmed flushes -/

/-- Whether a flush was submitted since the last confirmed one, given the events of a run, the
newest first. -/
def isUnconfirmed : List Event → Bool
  | [] => false
  | .committed _ :: _ => false
  | .submitted _ _ :: _ => true
  | _ :: older => isUnconfirmed older

/-- Whether an event neither consults the policy, nor submits a flush, nor confirms one. -/
def Event.isAside : Event → Bool
  | .consulted _ _ _ | .submitted _ _ | .committed _ => false
  | _ => true

/-- Uncounted events are aside. -/
theorem Event.isAside_uncounted {es : List Event} (h : es.all Event.isUncounted = true) :
    es.all Event.isAside = true := by
  refine List.all_eq_true.mpr fun e he => ?_
  have huncounted := List.all_eq_true.mp h e he
  cases e <;> first | rfl | cases huncounted

/-- Events of writes are aside. -/
theorem Event.isAside_write {es : List Event} (h : ∀ e ∈ es, ∃ n entries, e.IsOfWrite n entries) :
    es.all Event.isAside = true := by
  refine List.all_eq_true.mpr fun e he => ?_
  obtain ⟨n, entries, rfl | ⟨_, rfl⟩ | rfl⟩ := h e he <;> rfl

/-- Events that are aside confirm nothing, and leave nothing unconfirmed. -/
theorem isUnconfirmed_aside {newer : List Event} (h : newer.all Event.isAside = true)
    (older : List Event) : isUnconfirmed (newer ++ older) = isUnconfirmed older := by
  induction newer with
  | nil => rfl
  | cons e newer ih =>
    rw [List.all_cons, Bool.and_eq_true] at h
    rw [← ih h.2]
    cases e <;> first | rfl | cases h.1

/-- A flush that was submitted is unconfirmed until one is confirmed. -/
theorem isUnconfirmed_iff {es : List Event} :
    isUnconfirmed es = true ↔ ∃ between n entries older,
      es = between ++ .submitted n entries :: older ∧ ∀ m, .committed m ∉ between := by
  induction es with
  | nil => simp [isUnconfirmed]
  | cons e es ih =>
    constructor
    · intro h
      cases e with
      | committed m => cases h
      | submitted n entries => exact ⟨[], n, entries, es, rfl, by simp⟩
      | _ =>
        obtain ⟨between, n, entries, older, rfl, hno⟩ := ih.mp h
        exact ⟨_ :: between, n, entries, older, rfl, by simpa using hno⟩
    · rintro ⟨between, n, entries, older, heq, hno⟩
      cases between with
      | nil =>
        obtain ⟨rfl, rfl⟩ := List.cons.inj heq
        rfl
      | cons e' between =>
        obtain ⟨rfl, rfl⟩ := List.cons.inj heq
        have hold := ih.mpr ⟨between, n, entries, older, rfl, fun m hm =>
          hno m (List.mem_cons_of_mem _ hm)⟩
        cases e with
        | committed m => exact absurd List.mem_cons_self (hno m)
        | submitted m entries' => rfl
        | _ => exact hold

/-! ### Retries -/

/-- Every consultation after an unconfirmed flush agreed, and the next event was another flush. -/
def Retried (es : List Event) : Prop :=
  ∀ later records elapsed fired older, es = later ++ .consulted records elapsed fired :: older →
    isUnconfirmed older = true →
      fired = true ∧ ∃ later' n entries, later = later' ++ [.submitted n entries]

namespace Retried

variable {es newer : List Event}

/-- Events may be added that are no consultations. -/
theorem append (h : Retried es)
    (hno : ∀ records elapsed fired, .consulted records elapsed fired ∉ newer) :
    Retried (newer ++ es) := by
  intro later records elapsed fired older heq hun
  obtain ⟨middle, rfl, rfl⟩ | ⟨hm, -⟩ := mem_append_cases heq
  · obtain ⟨hfired, later', n, entries, rfl⟩ := h middle records elapsed fired older rfl hun
    exact ⟨hfired, newer ++ later', n, entries, by rw [List.append_assoc]⟩
  · exact absurd hm (hno records elapsed fired)

/-- Events that are aside are no consultations. -/
theorem aside (h : Retried es) (hes : newer.all Event.isAside = true) : Retried (newer ++ es) :=
  h.append fun _ _ _ => Event.not_mem_of_all hes rfl

/-- Without an unconfirmed flush, any answer will do. -/
theorem consult (h : Retried es) (hun : isUnconfirmed es = false) (records elapsed : Nat)
    (fired : Bool) : Retried (.consulted records elapsed fired :: es) := by
  intro later records' elapsed' fired' older heq hun'
  cases later with
  | nil =>
    obtain ⟨-, rfl⟩ := List.cons.inj heq
    rw [hun] at hun'
    cases hun'
  | cons e later =>
    obtain ⟨rfl, rfl⟩ := List.cons.inj heq
    obtain ⟨hfired, later', n, entries, rfl⟩ := h later records' elapsed' fired' older rfl hun'
    exact ⟨hfired, _ :: later', n, entries, rfl⟩

/-- A consultation that agrees and submits a flush is a retry. -/
theorem submit (h : Retried es) (records elapsed n : Nat) (entries : Entries) :
    Retried (.submitted n entries :: .consulted records elapsed true :: es) := by
  intro later records' elapsed' fired' older heq hun
  match later with
  | [] => cases (List.cons.inj heq).1
  | [e] =>
    obtain ⟨rfl, heq'⟩ := List.cons.inj heq
    obtain ⟨-, -, rfl⟩ := Event.consulted.inj (List.cons.inj heq').1
    exact ⟨rfl, [], n, entries, rfl⟩
  | e :: e' :: later =>
    obtain ⟨rfl, heq'⟩ := List.cons.inj heq
    obtain ⟨rfl, rfl⟩ := List.cons.inj heq'
    obtain ⟨hfired, later', m, entries', rfl⟩ := h later records' elapsed' fired' older rfl hun
    exact ⟨hfired, _ :: _ :: later', m, entries', rfl⟩

end Retried

/-- **What is kept of an unconfirmed flush**: its positions are owed, and the counters are not below
some to which the policy has agreed. -/
structure Retries (s : Setup) (now : Nat) (st : RunStatus) (es : List Event) : Prop where
  owes : isUnconfirmed es = true → deliveredSince es ≠ []
  agreed : ∀ a, st = .active a → isUnconfirmed es = true → a.stage.phase ≠ .startUp ∧
    ∃ records elapsed, s.policy.fires records elapsed = true ∧ records ≤ a.records ∧
      elapsed ≤ now - a.lastCommit
  retried : Retried es

namespace Retries

variable {s : Setup} {now now' : Nat} {st st' : RunStatus} {es newer : List Event}

/-- Nothing need be kept when no flush is unconfirmed. -/
theorem of_confirmed (hun : isUnconfirmed es = false) (h : Retried es) : Retries s now st es where
  owes hyes := by
    rw [hun] at hyes
    cases hyes
  agreed a _ hyes := by
    rw [hun] at hyes
    cases hyes
  retried := h

/-- Time only adds to the counters. -/
theorem later (h : Retries s now st es) (hnow : now ≤ now') : Retries s now' st es where
  owes := h.owes
  agreed a ha hun := by
    obtain ⟨hup, records, elapsed, hfires, hr, he⟩ := h.agreed a ha hun
    exact ⟨hup, records, elapsed, hfires, hr, he.trans (Nat.sub_le_sub_right hnow _)⟩
  retried := h.retried

/-- What is needed for a retry is kept while events are aside and the counters do not fall. -/
theorem aside (h : Retries s now st es) (hes : newer.all Event.isAside = true)
    (hst : ∀ a', st' = .active a' → ∃ a, st = .active a ∧ a.records ≤ a'.records ∧
      a'.lastCommit = a.lastCommit ∧ (a'.stage.phase = .startUp → a.stage.phase = .startUp)) :
    Retries s now st' (newer ++ es) where
  owes hun := by
    rw [isUnconfirmed_aside hes] at hun
    rw [deliveredSince_append fun n => Event.not_mem_of_all hes rfl]
    exact List.append_ne_nil_of_right_ne_nil _ (h.owes hun)
  agreed a' ha' hun := by
    rw [isUnconfirmed_aside hes] at hun
    obtain ⟨a, ha, hr, hl, hup⟩ := hst a' ha'
    obtain ⟨hup', records, elapsed, hfires, hr', he⟩ := h.agreed a ha hun
    exact ⟨fun hstart => hup' (hup hstart), records, elapsed, hfires, hr'.trans hr, hl ▸ he⟩
  retried := h.retried.aside hes

end Retries

/-! ### Consultations -/

/-- Whether the policy has to be consulted after an event. -/
def Event.callsPolicy : Event → Bool
  | .delivered _ | .interruptCleared => true
  | _ => false

/-- Whether the policy need not be consulted next. -/
def LeavesPolicy (es : List Event) : Prop :=
  ∀ e older, es = e :: older → e.callsPolicy = false

/-- The policy need not be consulted after events after which it need not be. -/
theorem LeavesPolicy.append {es newer : List Event} (h : LeavesPolicy es)
    (hes : ∀ e ∈ newer, e.callsPolicy = false) : LeavesPolicy (newer ++ es) := by
  intro e older heq
  cases newer with
  | nil => exact h e older heq
  | cons e' newer =>
    obtain ⟨rfl, -⟩ := List.cons.inj heq
    exact hes _ List.mem_cons_self

/-- **The policy is consulted where it has to be**: the next event is a consultation, or the run is
dropped. -/
structure Consults (st : RunStatus) (es : List Event) : Prop where
  due : ∀ e older, es = e :: older → e.callsPolicy = true →
    ∃ a final, st = .active a ∧ a.stage = .consulting final
  followed : ∀ later e' e older, es = later ++ e' :: e :: older → e.callsPolicy = true →
    (∃ records elapsed fired, e' = .consulted records elapsed fired) ∨ e' = .ended .aborted

namespace Consults

variable {st st' : RunStatus} {es newer : List Event} {e : Event}

/-- An event is added to others. -/
theorem cons (h : Consults st es)
    (hfollows : LeavesPolicy es ∨
      (∃ records elapsed fired, e = .consulted records elapsed fired) ∨ e = .ended .aborted)
    (hdue : e.callsPolicy = true → ∃ a final, st' = .active a ∧ a.stage = .consulting final) :
    Consults st' (e :: es) where
  due e₁ older heq hcalls := by
    obtain ⟨rfl, rfl⟩ := List.cons.inj heq
    exact hdue hcalls
  followed later e' e₁ older heq hcalls := by
    cases later with
    | nil =>
      obtain ⟨rfl, rfl⟩ := List.cons.inj heq
      refine hfollows.resolve_left fun hleaves => ?_
      exact absurd ((hleaves e₁ older rfl).symm.trans hcalls) Bool.false_ne_true
    | cons e₂ later =>
      obtain ⟨rfl, rfl⟩ := List.cons.inj heq
      exact h.followed later e' e₁ older rfl hcalls

/-- The policy need not be consulted where a run stands elsewhere. -/
theorem leavesPolicy (h : Consults st es)
    (hst : ∀ a final, st = .active a → a.stage ≠ .consulting final) : LeavesPolicy es := by
  intro e older heq
  refine Bool.eq_false_iff.mpr fun hcalls => ?_
  obtain ⟨a, final, ha, hstage⟩ := h.due e older heq hcalls
  exact hst a final ha hstage

/-- Where the policy need not be consulted, events may be added after which it need not be. -/
theorem append (h : Consults st es) (hleaves : LeavesPolicy es)
    (hes : ∀ e ∈ newer, e.callsPolicy = false) : Consults st' (newer ++ es) := by
  induction newer with
  | nil =>
    refine ⟨fun e older heq hcalls => ?_, h.followed⟩
    exact absurd ((hleaves e older heq).symm.trans hcalls) Bool.false_ne_true
  | cons e newer ih =>
    have hnewer : ∀ e ∈ newer, e.callsPolicy = false := fun e he =>
      hes e (List.mem_cons_of_mem _ he)
    refine (ih hnewer).cons (.inl (hleaves.append hnewer)) fun hcalls => ?_
    exact absurd ((hes e List.mem_cons_self).symm.trans hcalls) Bool.false_ne_true

end Consults

namespace Host

variable {s : Setup} {h h' h₀ : Host} {a : Active} {es es' : List Event} {st' : RunStatus} {r : Nat}

/-! ### Steps -/

/-- A built-in policy is consulted without probes. -/
theorem consultation_eq (hp : s.policy.BuiltIn) (now : Nat) (a : Active) :
    consultation s now a = [.consulted a.records (now - a.lastCommit)
      (s.policy.fires a.records (now - a.lastCommit))] := by
  rw [consultation, hp.probes_eq_nil]
  rfl

/-- **One step keeps what a retry needs.** -/
theorem Counts.retries (hp : s.policy.BuiltIn) (hl : Ledger s h.writes a es)
    (hc : Counts s h (.active a) es' st') (hr : Retries s h.now (.active a) es) :
    Retries s h.now st' (es'.reverse ++ es) := by
  have aside : ∀ {es' : List Event} {st' : RunStatus}, es'.all Event.isAside = true →
      (∀ a', st' = .active a' → a.records ≤ a'.records ∧ a'.lastCommit = a.lastCommit ∧
        (a'.stage.phase = .startUp → a.stage.phase = .startUp)) →
      Retries s h.now st' (es'.reverse ++ es) := fun hes hst =>
    hr.aside (by rwa [List.all_reverse]) fun a' ha' => ⟨a, rfl, hst a' ha'⟩
  have same : ∀ {a' : Active}, a.CountsAs a' → a'.stage.phase ≠ .startUp →
      ∀ b, RunStatus.active a' = .active b → a.records ≤ b.records ∧ b.lastCommit = a.lastCommit ∧
        (b.stage.phase = .startUp → a.stage.phase = .startUp) := by
    rintro a' ⟨hrec, hlast⟩ hup _ ⟨⟩
    exact ⟨Nat.le_of_eq hrec.symm, hlast, fun h => absurd h hup⟩
  have hafter : ∀ (b : Active) (final : Bool), (afterCommit b final).stage.phase ≠ .startUp := by
    rintro b (_ | _) <;> nofun
  cases hc with
  | ends hes => exact aside (Event.isAside_uncounted hes) (by rintro _ ⟨⟩)
  | keeps hes _ _ hphase hcount =>
    refine aside (Event.isAside_uncounted hes) ?_
    rintro _ ⟨⟩
    refine ⟨Nat.le_of_eq hcount.records.symm, hcount.lastCommit, fun hup => ?_⟩
    rcases hphase with heq | ⟨-, result, heq, -⟩
    · exact heq.symm.trans hup
    · rw [heq] at hup
      cases hup
  | @begins _ _ opening hes ha ha' =>
    have hun : isUnconfirmed es = false :=
      Bool.eq_false_iff.mpr fun hyes => (hr.agreed a rfl hyes).1 ha
    have hes' : (opening ++ [Event.loopBegun]).reverse.all Event.isAside = true := by
      rw [List.all_reverse, List.all_append, Event.isAside_uncounted hes]
      rfl
    exact .of_confirmed ((isUnconfirmed_aside hes' es).trans hun) (hr.retried.aside hes')
  | delivers _ ha' hrec hlast =>
    refine aside rfl ?_
    rintro _ ⟨⟩
    refine ⟨by omega, hlast, fun hup => ?_⟩
    rw [ha'] at hup
    cases hup
  | heeds hes _ ha' hcount =>
    refine aside ?_ (same hcount (by rw [ha']; nofun))
    rw [List.all_append, Event.isAside_uncounted hes]
    rfl
  | skips ha hno hes ha' hcount =>
    -- A flush that is unconfirmed would have been tried again.
    have hun : isUnconfirmed es = false := by
      refine Bool.eq_false_iff.mpr fun hyes => ?_
      obtain ⟨-, records, elapsed, hfires, hrec, hel⟩ := hr.agreed a rfl hyes
      obtain ⟨w, hbegin, hsubmit⟩ := hl.submits (by rw [ha]; rfl)
        (mt owedPositions_eq_nil_iff.mp (hr.owes hyes))
      exact hno (hp.fires_of_le hrec hel hfires) w _ _ hbegin hsubmit
    rw [consultation_eq hp, List.reverse_append, List.append_assoc, List.reverse_singleton,
      List.singleton_append]
    have hes' := (List.all_reverse ..).trans (Event.isAside_uncounted hes)
    exact .of_confirmed ((isUnconfirmed_aside hes' _).trans hun)
      ((hr.retried.consult hun _ _ _).aside hes')
  | submits ha hfires hbegin _ ha' hcount =>
    rw [consultation_eq hp, hfires]
    obtain ⟨-, hpending, -⟩ := OffsetWriter.beginFlush_eq_ok_some hbegin
    have howed : deliveredSince es ≠ [] := by
      rw [(hl.settled (by rw [ha]; rfl)).2] at hpending
      exact mt owedPositions_eq_nil_iff.mpr hpending
    refine ⟨fun _ => howed, ?_, hr.retried.submit _ _ _ _⟩
    rintro _ ⟨⟩ -
    refine ⟨?_, _, _, hfires, Nat.le_of_eq hcount.records.symm, ?_⟩
    · rw [ha', Stage.phase]
      split <;> nofun
    · rw [hcount.lastCommit]
  | @commits _ _ _ number _ _ _ hes =>
    rw [List.reverse_append, List.append_assoc]
    have hes' := (List.all_reverse ..).trans (Event.isAside_uncounted hes)
    have hretried : Retried ([.committed number] ++ _) :=
      (hr.retried.aside hes').append (by simp)
    exact .of_confirmed rfl hretried
  | givesUp _ ha' hcount => exact aside rfl (same hcount (by rw [ha']; exact hafter _ _))

/-- **One step consults the policy** where it has to be consulted. -/
theorem Counts.consults (hp : s.policy.BuiltIn) (hc : Counts s h (.active a) es' st')
    (hd : Consults (.active a) es) : Consults st' (es'.reverse ++ es) := by
  have uncounted : ∀ {es : List Event}, es.all Event.isUncounted = true →
      ∀ e ∈ es.reverse, e.callsPolicy = false := by
    intro es hes e he
    have huncounted := List.all_eq_true.mp hes e (List.mem_reverse.mp he)
    cases e <;> first | rfl | cases huncounted
  have elsewhere : (∀ final, a.stage ≠ .consulting final) → LeavesPolicy es := by
    refine fun hno => hd.leavesPolicy ?_
    rintro _ final ⟨⟩
    exact hno final
  have uncommitting : a.stage.isCommitting = false → ∀ final, a.stage ≠ .consulting final := by
    intro hno final heq
    rw [heq] at hno
    cases hno
  have answers : ∀ records elapsed fired,
      Consults (.active a) (.consulted records elapsed fired :: es) := fun records elapsed fired =>
    hd.cons (.inr (.inl ⟨records, elapsed, fired, rfl⟩)) nofun
  have after : ∀ {records elapsed fired},
      LeavesPolicy (.consulted records elapsed fired :: es) := by
    rintro records elapsed fired _ _ ⟨⟩
    rfl
  cases hc with
  | keeps hes ha => exact hd.append (elsewhere (uncommitting ha)) (uncounted hes)
  | givesUp ha => exact hd.append (elsewhere (by rw [ha]; nofun)) (by simp [Event.callsPolicy])
  | begins hes ha =>
    have hno : ∀ final, a.stage ≠ .consulting final := by
      intro final heq
      rw [heq] at ha
      cases final <;> cases ha
    rw [List.reverse_append]
    exact hd.append (elsewhere hno) (List.forall_mem_cons.mpr ⟨rfl, uncounted hes⟩)
  | commits ha hes =>
    rw [List.reverse_append]
    exact hd.append (elsewhere (by rw [ha]; nofun)) (List.forall_mem_cons.mpr ⟨rfl, uncounted hes⟩)
  | delivers ha ha' =>
    exact hd.cons (.inl (elsewhere (by rw [ha]; nofun))) fun _ => ⟨_, false, rfl, ha'⟩
  | @heeds _ a' report hes ha ha' =>
    have hno : ∀ final, a.stage ≠ .consulting final := by
      rcases ha with ha | ha <;> rw [ha] <;> nofun
    have hd' : Consults (.active a') (report.reverse ++ es) :=
      hd.append (elsewhere hno) (uncounted hes)
    rw [List.reverse_append]
    exact hd'.cons (.inl ((elsewhere hno).append (uncounted hes))) fun _ => ⟨_, true, rfl, ha'⟩
  | skips ha hno hes =>
    rw [consultation_eq hp, List.reverse_append, List.append_assoc]
    exact (answers _ _ _).append after (uncounted hes)
  | submits =>
    rw [consultation_eq hp]
    exact (answers _ _ _).cons (.inl after) nofun
  | ends hes hdrop =>
    cases hcommit : a.stage.isCommitting with
    | true =>
      rw [hdrop a rfl hcommit]
      exact hd.cons (.inr (.inr rfl)) nofun
    | false => exact hd.append (elsewhere (uncommitting hcommit)) (uncounted hes)

/-! ### Runs -/

/-- **What a retry needs is there** wherever a run stands. -/
theorem Reaches.retries (hp : s.policy.BuiltIn) (hf : h₀.Fresh) (hr : Reaches s h₀ h)
    {st : RunStatus} (hst : h.status? r = some st) (hreq : st ≠ .requested) :
    Retries s h.now st (eventsOf r h.history) := by
  refine hr.counted (P := Retries s) hf ?_ (fun hnow hold => hold.later hnow) ?_ ?_ hst hreq
  · intro h es st' _ hc
    have haside : es.reverse.all Event.isAside = true := by
      rw [List.all_reverse]
      cases hc with
      | starts hes | ends hes => exact Event.isAside_uncounted hes
    have hnil : Retried [] := by
      intro later _ _ _ older heq
      simp at heq
    rw [← List.append_nil es.reverse]
    exact .of_confirmed (isUnconfirmed_aside haside []) (hnil.aside haside)
  · intro now st es es' _ hes hold
    exact hold.aside (Event.isAside_write hes) fun a ha => ⟨a, ha, Nat.le_refl _, rfl, id⟩
  · intro h a es st' hr hst hc hold
    exact hc.retries hp ((Reaches.booked hf hr).ledger r a hst) hold

/-- **The policy was consulted where it had to be** wherever a run stands. -/
theorem Reaches.consults (hp : s.policy.BuiltIn) (hf : h₀.Fresh) (hr : Reaches s h₀ h)
    {st : RunStatus} (hst : h.status? r = some st) (hreq : st ≠ .requested) :
    Consults st (eventsOf r h.history) := by
  refine hr.counted (P := fun _ st es => Consults st es) hf ?_ (fun _ hold => hold) ?_ ?_ hst hreq
  · intro h es st' _ hc
    have hnil : Consults st' [] := ⟨nofun, by simp⟩
    rw [← List.append_nil es.reverse]
    refine hnil.append nofun fun e he => ?_
    have huncounted : es.all Event.isUncounted = true := by
      cases hc with
      | starts hes | ends hes => exact hes
    have := List.all_eq_true.mp huncounted e (List.mem_reverse.mp he)
    cases e <;> first | rfl | cases this
  · intro now st es es' hwait hes hold
    refine hold.append (hold.leavesPolicy ?_) ?_
    · intro a final ha hstage
      obtain ⟨n, hn⟩ := hwait a ha
      rw [hstage] at hn
      cases hn
    · intro e he
      obtain ⟨n, entries, rfl | ⟨_, rfl⟩ | rfl⟩ := hes e he <;> rfl
  · intro h a es st' _ _ hc hold
    exact hc.consults hp hold

/-- **Retry on the next cycle.** While no flush is confirmed since one was submitted, a built-in
policy agrees whenever it is consulted, and then another flush is submitted at once, which carries
an entry for every partition of the one that was not confirmed: the same entry, or that of a batch
delivered since. So it goes on until a flush is confirmed or the run ends.

The policy is consulted next after a batch was delivered and after an interrupt was taken note of,
unless the run is dropped there. -/
theorem Reaches.retries_unconfirmed (hp : s.policy.BuiltIn) (hf : h₀.Fresh) (hr : Reaches s h₀ h)
    (r : Nat) :
    (∀ later records elapsed fired between n entries older,
      eventsOf r h.history =
        later ++ .consulted records elapsed fired :: (between ++ .submitted n entries :: older) →
      (∀ m, .committed m ∉ between) →
        fired = true ∧ ∃ later' n' entries', later = later' ++ [.submitted n' entries'] ∧
          ∀ key value, (key, value) ∈ entries → ∃ value', (key, value') ∈ entries' ∧
            (value' = value ∨ DeliversEntry s.offsetFormat between key value')) ∧
    ∀ later e' e older, eventsOf r h.history = later ++ e' :: e :: older →
      (∃ batch, e = .delivered batch) ∨ e = .interruptCleared →
        (∃ records elapsed fired, e' = .consulted records elapsed fired) ∨
          e' = .ended .aborted := by
  obtain hnil | ⟨st, hst, hreq⟩ := Reaches.eventsOf_cases hf hr r
  · rw [hnil]
    exact ⟨by simp, by simp⟩
  refine ⟨?_, ?_⟩
  · intro later records elapsed fired between n entries older heq hno
    obtain ⟨hfired, later', n', entries', rfl⟩ := (Reaches.retries hp hf hr hst hreq).retried later
      records elapsed fired _ heq (isUnconfirmed_iff.mpr ⟨between, n, entries, older, rfl, hno⟩)
    refine ⟨hfired, later', n', entries', rfl, fun key value hm => ?_⟩
    have hb := Reaches.booked hf hr
    rw [List.append_assoc, List.singleton_append] at heq
    have hsubmitted := hb.entries_eq heq
    have hentries' : entries' =
        s.offsetFormat.entriesOf (owedPositions (between ++ .submitted n entries :: older)) :=
      hsubmitted
    have heq' : eventsOf r h.history =
        (later' ++ .submitted n' entries' :: .consulted records elapsed fired :: between) ++
          .submitted n entries :: older := by rw [heq]; simp
    have hold := hb.entries_eq heq'
    rw [hold] at hm
    rw [hentries']
    exact entriesOf_owed_of_not_mem hno hm
  · intro later e' e older heq hcalls
    refine (Reaches.consults hp hf hr hst hreq).followed later e' e older heq ?_
    rcases hcalls with ⟨batch, rfl⟩ | rfl <;> rfl

/-- The first write of a store fails, and the next batch leads to another flush. -/
theorem retries_after_failed_write :
    let s : Setup :=
      { config := { name := "engine", connectorClass := "source", flushTimeout := 5000
                    keyConverter := .json, valueConverter := .json, properties := [] }
        registry := Registry.empty.register "source" {}
        policy := .both (.every 1) (.either (.periodic 5) .always)
        consumer := fun _ => {} }
    let x : Record :=
      { partition := [("shard", .number (.integer 1))], offset := [("row", .number (.integer 7))]
        topic := "rows", key := none, value := .null, timestamp := none }
    let plan : StorePlan :=
      { sets := fun call => if call = 0 then .answers 0 (some .flushAborted) else .succeeds }
    let h₀ : Host := { feed := [.batch [x], .batch [x]], store := { plan } }
    let h := ((h₀.request.runOn s 0 20).turnWrite 0).runOn s 0 20
    ∃ later records elapsed fired between n entries older, eventsOf 0 h.history =
        later ++ .consulted records elapsed fired :: (between ++ .submitted n entries :: older) ∧
      (∀ m, .committed m ∉ between) ∧
      fired = true ∧ ∃ later' n' entries', later = later' ++ [.submitted n' entries'] ∧
        ∀ key value, (key, value) ∈ entries → ∃ value', (key, value') ∈ entries' ∧
          (value' = value ∨ DeliversEntry s.offsetFormat between key value') := by
  intro s x plan h₀ h
  have hf : h₀.Fresh := ⟨rfl, rfl, rfl, rfl⟩
  have hr : Reaches s h₀ h :=
    Reaches.runOn (.tail (Reaches.runOn (.tail .refl .request) 0 20) (.write 0)) 0 20
  have hp : s.policy.BuiltIn := ⟨trivial, trivial, trivial⟩
  have hasked : (eventsOf 0 h.history)[1]?.bind Event.consultation? = some (2, 0, true) := by
    decide +kernel
  have hunconfirmed : isUnconfirmed ((eventsOf 0 h.history).drop 2) = true := by decide +kernel
  obtain ⟨e, he, hasked⟩ := Option.bind_eq_some_iff.mp hasked
  obtain rfl := Event.consultation?_eq_some hasked
  have heq := eq_take_append_cons_drop he
  obtain ⟨between, n, entries, older, holder, hno⟩ := isUnconfirmed_iff.mp hunconfirmed
  rw [holder] at heq
  obtain ⟨hfired, hretry⟩ := (Reaches.retries_unconfirmed hp hf hr 0).1 _ 2 0 true
    between n entries older heq hno
  exact ⟨_, 2, 0, true, between, n, entries, older, heq, hno, hfired, hretry⟩

end Host

end ChangeCapture
