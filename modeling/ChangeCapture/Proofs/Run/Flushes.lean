import ChangeCapture.Proofs.Run.Counts
import ChangeCapture.Proofs.Run.Resume

/-!
# The writes of flushes

A run submits a flush, waits for its write, and then confirms the flush or gives it up; so its events
tell at any time whether a flush is open. Writes are numbered in the order of their submission, and
the one that is waited for is the newest of all. A write that is over stays so. Therefore a write
that could still act on the store is the newest one, or it was left behind by a run that was dropped
while it waited for this very write.

## Main definitions

* `openFlush?`: the flush that the events of a run leave open.
* `submissions`: how many writes were submitted.
* `abandonedFlush?`: the flush that was open when a run was dropped.
* `Host.IsOver`: a write that can do nothing more.
* `Host.Abandoned`: a run that was dropped while it waited for a write.

## Main results

* `Host.Reaches.openFlush?_of_waiting` — the open flush is the one that is waited for.
* `Host.Reaches.numbered` — writes are numbered in order.
* `Host.IsOver.reaches` — a write that is over stays so.
* `Host.Reaches.live_cases` — which writes could still act on the store.
-/

namespace ChangeCapture

/-! ### Open flushes -/

/-- Whether an event leaves it open which flush is open. -/
def Event.leavesFlush : Event → Bool
  | .submitted _ _ | .committed _ | .givenUp _ => false
  | _ => true

/-- **The flush that the events of a run leave open**, the newest first. -/
def openFlush? : List Event → Option Nat
  | [] => none
  | .submitted n _ :: _ => some n
  | .committed _ :: _ | .givenUp _ :: _ => none
  | _ :: es => openFlush? es

/-- Events that leave it open which flush is open may be added. -/
theorem openFlush?_append {newer older : List Event}
    (h : newer.all Event.leavesFlush = true) : openFlush? (newer ++ older) = openFlush? older := by
  induction newer with
  | nil => rfl
  | cons e newer ih =>
    rw [List.all_cons, Bool.and_eq_true] at h
    rw [List.cons_append]
    cases e with
    | submitted | committed | givenUp => cases h.1
    | _ => exact ih h.2

/-- Uncounted events open and close no flush. -/
theorem Event.leavesFlush_uncounted {es : List Event} (h : es.all Event.isUncounted = true) :
    es.all Event.leavesFlush = true := by
  refine List.all_eq_true.mpr fun e he => ?_
  have huncounted := List.all_eq_true.mp h e he
  cases e <;> first | rfl | cases huncounted

/-- The turns of writes open and close no flush. -/
theorem Event.leavesFlush_write {es : List Event}
    (h : ∀ e ∈ es, ∃ n entries, e.IsOfWrite n entries) : es.all Event.leavesFlush = true := by
  refine List.all_eq_true.mpr fun e he => ?_
  obtain ⟨_, _, rfl | ⟨_, rfl⟩ | rfl⟩ := h e he <;> rfl

/-- A consultation opens and closes no flush. -/
theorem leavesFlush_consultation (s : Setup) (now : Nat) (a : Active) :
    (consultation s now a).reverse.all Event.leavesFlush = true := by
  simp [consultation, Event.leavesFlush]

/-- An open flush was submitted, and neither confirmed nor given up since. -/
theorem exists_of_openFlush? {n : Nat} {es : List Event} (h : openFlush? es = some n) :
    ∃ newer entries older, es = newer ++ .submitted n entries :: older ∧
      newer.all Event.leavesFlush = true := by
  induction es with
  | nil => cases h
  | cons e es ih =>
    have later : e.leavesFlush = true → openFlush? es = some n → ∃ newer entries older,
        e :: es = newer ++ .submitted n entries :: older ∧
          newer.all Event.leavesFlush = true := by
      intro he hes
      obtain ⟨newer, entries, older, rfl, hnewer⟩ := ih hes
      exact ⟨e :: newer, entries, older, rfl, by rw [List.all_cons, he, hnewer]; rfl⟩
    cases e with
    | submitted m entries =>
      obtain rfl := Option.some.inj h
      exact ⟨[], entries, es, rfl, rfl⟩
    | committed | givenUp => cases h
    | _ => exact later rfl h

/-- **Every flush that is confirmed or given up is the open one**, given the events of a run, the
newest first. -/
def ClosesOpen : List Event → Prop
  | [] => True
  | .committed n :: es | .givenUp n :: es => openFlush? es = some n ∧ ClosesOpen es
  | _ :: es => ClosesOpen es

/-- Events that leave it open which flush is open close none. -/
theorem ClosesOpen.append {newer older : List Event} (h : ClosesOpen older)
    (hnewer : newer.all Event.leavesFlush = true) : ClosesOpen (newer ++ older) := by
  induction newer with
  | nil => exact h
  | cons e newer ih =>
    rw [List.all_cons, Bool.and_eq_true] at hnewer
    cases e with
    | submitted | committed | givenUp => cases hnewer.1
    | _ => exact ih hnewer.2

/-- What was closed before was open then. -/
theorem ClosesOpen.split {newer older : List Event} (h : ClosesOpen (newer ++ older)) :
    ClosesOpen older := by
  induction newer with
  | nil => exact h
  | cons e newer ih =>
    cases e with
    | committed | givenUp => exact ih h.2
    | _ => exact ih h

/-- **The flush that was open when a run was dropped**, given its events, the newest first. -/
def abandonedFlush? : List Event → Option Nat
  | [] => none
  | .ended .aborted :: es => openFlush? es
  | _ :: es => abandonedFlush? es

/-- The turns of writes drop no run. -/
theorem abandonedFlush?_append {n : Nat} {entries : Entries} {newer older : List Event}
    (h : ∀ e ∈ newer, e.IsOfWrite n entries) :
    abandonedFlush? (newer ++ older) = abandonedFlush? older := by
  induction newer with
  | nil => rfl
  | cons e newer ih =>
    have hnewer := ih fun e he => h e (List.mem_cons_of_mem _ he)
    obtain rfl | ⟨_, rfl⟩ | rfl := h e List.mem_cons_self <;> exact hnewer

/-! ### Numbers of writes -/

/-- Whether an event submits a write. -/
def Event.isSubmission : Event → Bool
  | .submitted _ _ => true
  | _ => false

/-- How many writes were submitted. -/
def submissions (history : List HistoryEntry) : Nat :=
  history.countP fun x => x.event.isSubmission

/-- The number of writes in two parts of a history. -/
theorem submissions_append (newer older : List HistoryEntry) :
    submissions (newer ++ older) = submissions newer + submissions older :=
  List.countP_append

/-- A write that is submitted is one more. -/
theorem submissions_submitted (r t n : Nat) (entries : Entries) (earlier : List HistoryEntry) :
    submissions (⟨r, t, .submitted n entries⟩ :: earlier) = submissions earlier + 1 :=
  List.countP_cons_of_pos rfl

/-- Events among which no write is submitted. -/
theorem submissions_eq_zero {r now : Nat} {es : List Event}
    (h : ∀ n entries, .submitted n entries ∉ es) :
    submissions (es.map (HistoryEntry.mk r now)).reverse = 0 := by
  refine List.countP_eq_zero.mpr fun x hx hsub => ?_
  obtain ⟨e, he, rfl⟩ := List.mem_map.mp (List.mem_reverse.mp hx)
  cases e with
  | submitted n entries => exact h n entries he
  | _ => cases hsub

/-- Whether the number of a write that is submitted is the number of those before it. -/
def IsNumbered (x : HistoryEntry) (earlier : List HistoryEntry) : Prop :=
  ∀ n entries, x.event = .submitted n entries → n = submissions earlier

/-- **What one step may submit**: nothing, or one write, at its end and under the next number. -/
theorem Books.submission_cases {s : Setup} {r : Nat} {h h' : Host} {st st' : RunStatus}
    {es : List Event} (hb : Books s r h st es st' h') :
    (∀ n entries, .submitted n entries ∉ es) ∧ h'.writes.length = h.writes.length ∨
    ∃ es₀ entries, es = es₀ ++ [.submitted h.writes.length entries] ∧
      (∀ n entries, .submitted n entries ∉ es₀) ∧ h'.writes.length = h.writes.length + 1 := by
  have plain : ∀ {es : List Event}, es.all Event.isPlain = true →
      ∀ n entries, .submitted n entries ∉ es := fun hes _ _ => Event.not_mem_of_all hes rfl
  cases hb with
  | opens hes _ _ hws | keeps hes _ _ _ hws | receives hes _ _ _ _ hws | hands hes _ _ _ _ hws
  | refuses hes _ _ _ _ _ hws | ends hes _ _ hws => exact .inl ⟨plain hes, by rw [hws]⟩
  | delivers _ _ _ hws => exact .inl ⟨by simp, by rw [hws]⟩
  | commits _ hes _ _ _ _ _ hws =>
    refine .inl ⟨fun n entries hm => ?_, by rw [hws]⟩
    rcases List.mem_append.mp hm with hm | hm
    · exact plain hes n entries hm
    · cases List.mem_singleton.mp hm
  | givesUp hes _ _ _ hws => exact .inl ⟨plain hes, by rw [hws, List.length_modify]⟩
  | submits hes _ _ _ _ hws =>
    exact .inr ⟨_, _, rfl, plain hes, by rw [hws, List.length_append]; rfl⟩

namespace Host

variable {s : Setup} {r r' n : Nat} {h h' h₀ h₁ : Host} {st st' : RunStatus} {es : List Event}
  {a : Active} {w : Write}

/-- A run that waits for a write is committing. -/
theorem isCommitting_of_waiting {stage : Stage} (h : stage.standing = .waiting n) :
    stage.isCommitting = true := by
  cases stage <;> first | rfl | cases h

/-- One step opens the flush that its run waits for afterwards. -/
theorem Counts.openFlush? {older : List Event} {a' : Active} (hc : Counts s h st es (.active a'))
    (hwait : a'.stage.standing = .waiting n) : openFlush? (es.reverse ++ older) = some n := by
  have hcommit := isCommitting_of_waiting hwait
  cases hc with
  | starts _ ha' =>
    rw [Stage.isCommitting_of_phase (by rw [ha']; nofun) (by rw [ha']; nofun)] at hcommit
    cases hcommit
  | keeps _ _ ha' =>
    rw [ha'] at hcommit
    cases hcommit
  | begins _ _ ha' | delivers _ ha' | heeds _ _ ha' =>
    rw [ha'] at hwait
    cases hwait
  | @skips _ _ _ final _ _ _ ha' | @commits _ _ _ _ _ final _ _ ha'
  | @givesUp _ _ _ _ _ final _ ha' =>
    rw [ha'] at hcommit
    cases final <;> cases hcommit
  | submits _ _ _ _ ha' =>
    rw [ha'] at hwait
    rw [List.reverse_append, Standing.waiting.inj hwait]
    rfl

/-- **The open flush of a run is the one that it waits for.** -/
theorem Reaches.openFlush?_of_waiting (hf : h₀.Fresh) (hr : Reaches s h₀ h)
    (hst : h.status? r = some (.active a)) (hwait : a.stage.standing = .waiting n) :
    openFlush? (eventsOf r h.history) = some n := by
  refine Reaches.counted (r := r)
    (P := fun _ st es => ∀ a n, st = .active a → a.stage.standing = .waiting n →
      openFlush? es = some n) hf ?_ (fun _ hold => hold) ?_ ?_ hr hst (by rintro ⟨⟩) a n rfl hwait
  · rintro h es _ - hc a n rfl hn
    rw [← List.append_nil es.reverse]
    exact hc.openFlush? hn
  · intro _ _ _ _ _ hes hold a n ha hn
    rw [openFlush?_append (Event.leavesFlush_write hes), hold a n ha hn]
  · rintro h b es _ - - hc - a n rfl hn
    exact hc.openFlush? hn

/-- **Every flush that a run confirms or gives up is its open one.** -/
theorem Reaches.closesOpen (hf : h₀.Fresh) (hr : Reaches s h₀ h) (r : Nat) :
    ClosesOpen (eventsOf r h.history) := by
  obtain hnil | ⟨st, hst, hreq⟩ := hr.eventsOf_cases hf r
  · rw [hnil]
    trivial
  refine Reaches.counted (r := r) (P := fun _ _ es => ClosesOpen es) hf ?_ (fun _ hold => hold)
    ?_ ?_ hr hst hreq
  · intro h es st' _ hc
    rw [← List.append_nil es.reverse]
    refine ClosesOpen.append trivial (Event.leavesFlush_uncounted ?_)
    rw [List.all_reverse]
    cases hc with
    | starts hes | ends hes => exact hes
  · intro _ _ _ _ _ hes hold
    exact hold.append (Event.leavesFlush_write hes)
  · intro h a es st' hr hst hc hold
    have uncounted : ∀ {es : List Event}, es.all Event.isUncounted = true →
        es.reverse.all Event.leavesFlush = true := fun hes =>
      (List.all_reverse ..).trans (Event.leavesFlush_uncounted hes)
    cases hc with
    | ends hes | keeps hes => exact hold.append (uncounted hes)
    | begins hes | heeds hes =>
      rw [List.reverse_append]
      exact hold.append (uncounted hes)
    | delivers => exact hold
    | skips _ _ hes =>
      rw [List.reverse_append, List.append_assoc]
      exact (hold.append (leavesFlush_consultation s h.now a)).append (uncounted hes)
    | submits =>
      rw [List.reverse_append, List.append_assoc]
      exact hold.append (leavesFlush_consultation s h.now a)
    | commits ha hes =>
      have hopen := Reaches.openFlush?_of_waiting hf hr hst (n := _) (by rw [ha]; rfl)
      rw [List.reverse_append]
      exact ⟨(openFlush?_append (uncounted hes)).trans hopen, hold.append (uncounted hes)⟩
    | givesUp ha =>
      have hopen := Reaches.openFlush?_of_waiting hf hr hst (n := _) (by rw [ha]; rfl)
      exact ⟨hopen, hold⟩

/-- **What a run confirms it had submitted.** -/
theorem Reaches.confirmed_of_committed (hf : h₀.Fresh) (hr : Reaches s h₀ h)
    (hm : .committed n ∈ eventsOf r h.history) :
    ∃ entries before, Confirmed h.history r n entries before := by
  obtain ⟨newer, older, heq⟩ := List.append_of_mem hm
  have hcloses := Reaches.closesOpen hf hr r
  rw [heq] at hcloses
  obtain ⟨newer', entries, older', rfl, -⟩ := exists_of_openFlush? hcloses.split.1
  obtain ⟨later, t, earlier, hhistory, -, hearlier⟩ := exists_of_eventsOf_eq heq
  obtain ⟨between, t', before, rfl, -, -⟩ := exists_of_eventsOf_eq hearlier
  exact ⟨entries, before, later, t, between, t', hhistory⟩

/-! ### Numbers of writes -/

/-- **Writes are numbered** in the order of their submission, and the newest is the only one that a
run may wait for. -/
structure Numbered (h : Host) : Prop where
  count : h.writes.length = submissions h.history
  numbered : Throughout IsNumbered h.history
  newest : ∀ r n, h.Awaits r n → n + 1 = h.writes.length

/-- A fresh host has no writes. -/
theorem Fresh.numbered (hf : h.Fresh) : h.Numbered where
  count := by rw [hf.writes, hf.history]; rfl
  numbered := by rw [hf.history]; trivial
  newest r n ha := by
    obtain ⟨a, hst, -⟩ := ha
    rw [hf.status?] at hst
    cases hst

/-- A move that is no step submits nothing. -/
theorem Numbered.rests (hn : h.Numbered) (hr : h.Rests h') : h'.Numbered where
  count := by rw [hr.writes, hr.history]; exact hn.count
  numbered := hr.history ▸ hn.numbered
  newest r n ha := by
    obtain ⟨a, hst, hwait⟩ := ha
    rw [hr.writes]
    exact hn.newest r n ⟨a, hr.active hst, hwait⟩

/-- A turn of a write submits nothing. -/
theorem Numbered.write {status : WriteStatus} (hn : h.Numbered)
    (hw : h.WriteTurns n w status es h') : h'.Numbered where
  count := by
    have hno : ∀ m entries, .submitted m entries ∉ es := by
      intro m entries hm
      obtain heq | ⟨_, heq⟩ | heq := hw.events _ hm <;> cases heq
    rw [hw.writes, List.length_set, hw.adds.history, submissions_append, submissions_eq_zero hno,
      Nat.zero_add]
    exact hn.count
  numbered := by
    refine hn.numbered.adds hw.adds ?_
    intro e he between m entries heq
    obtain rfl | ⟨_, rfl⟩ | rfl := hw.events e he <;> cases heq
  newest r m ha := by
    obtain ⟨a, hst, hwait⟩ := ha
    rw [hw.writes, List.length_set]
    exact hn.newest r m ⟨a, (hw.status? r).symm.trans hst, hwait⟩

/-- A step of a run submits one write at most, under the next number. -/
theorem Numbered.act (hn : h.Numbered) (ho : h.Orderly) (hst : h.status? r = some st)
    (hlive : ∀ o, st ≠ .ended o) (hact : h.Act s r st es st' h₁) :
    (h₁.setStatus r st').Numbered where
  count := by
    change h₁.writes.length = submissions h₁.history
    rw [hact.adds.history, submissions_append]
    obtain ⟨hno, hlen⟩ | ⟨es₀, entries, rfl, hno, hlen⟩ := hact.books.submission_cases
    · rw [hlen, hn.count, submissions_eq_zero hno, Nat.zero_add]
    · rw [hlen, hn.count, List.map_append, List.reverse_append, submissions_append,
        submissions_eq_zero hno, Nat.add_comm]
      rfl
  numbered := by
    change Throughout IsNumbered h₁.history
    refine hn.numbered.adds_in_order hact.adds fun es₁ e es₂ heq m entries he => ?_
    obtain rfl : e = .submitted m entries := he
    obtain ⟨hno, -⟩ | ⟨es₀, entries', hes, hno, -⟩ := hact.books.submission_cases
    · refine absurd ?_ (hno m entries)
      rw [heq]
      exact List.mem_append_right _ List.mem_cons_self
    · obtain rfl | ⟨es₃, x, rfl⟩ := List.eq_nil_or_concat es₂
      · obtain ⟨rfl, hx⟩ := List.append_inj' (hes.symm.trans heq) rfl
        obtain ⟨rfl, -⟩ := Event.submitted.inj (List.singleton_inj.mp hx)
        rw [submissions_append, submissions_eq_zero hno, Nat.zero_add]
        exact hn.count
      · rw [List.concat_eq_append, ← List.cons_append, ← List.append_assoc] at heq
        obtain ⟨rfl, -⟩ := List.append_inj' (hes.symm.trans heq) rfl
        exact absurd (List.mem_append_right _ List.mem_cons_self) (hno m entries)
  newest r' m ha := by
    obtain ⟨a, hr', hwait⟩ := ha
    change m + 1 = h₁.writes.length
    rw [hact.status? hst] at hr'
    split at hr'
    · obtain rfl := Option.some.inj hr'
      obtain ⟨rfl, flushId, entries, hws⟩ := hact.books.waits hwait
      rw [hws, List.length_append]
      rfl
    · rename_i hne
      obtain ⟨-, -, -, hws⟩ := hact.plain_of_beside ho hst hlive hr' hne
      rw [hws]
      exact hn.newest r' m ⟨a, hr', hwait⟩

/-- **Writes are numbered** in a host that was fresh. -/
theorem Reaches.numbered (hf : h₀.Fresh) (hr : Reaches s h₀ h) : h.Numbered := by
  induction hr with
  | refl => exact hf.numbered
  | tail hr hm ih =>
    exact hm.elim ih.rests (fun _ _ _ _ => ih.write) fun _ _ _ _ _ _ hst hlive hact heq =>
      heq ▸ ih.act (Reaches.orderly hf hr) hst hlive hact

/-- What was submitted earlier has a lower number. -/
theorem Numbered.lt_of_submitted (hn : h.Numbered) {later before : List HistoryEntry}
    {t t' m : Nat} {entries entries' : Entries}
    (heq : h.history = later ++ ⟨r, t, .submitted n entries⟩ :: before)
    (hm : ⟨r', t', .submitted m entries'⟩ ∈ before) : m < n := by
  obtain ⟨between, earlier, rfl⟩ := List.append_of_mem hm
  have hlater : Throughout IsNumbered (later ++ ⟨r, t, .submitted n entries⟩ ::
      (between ++ ⟨r', t', .submitted m entries'⟩ :: earlier)) := heq ▸ hn.numbered
  have hn' := hlater.split n entries rfl
  rw [List.append_cons, ← List.append_assoc] at hlater
  have hm' := hlater.split m entries' rfl
  rw [submissions_append, submissions_submitted] at hn'
  omega

/-- What was submitted is among the writes. -/
theorem Numbered.lt_length (hn : h.Numbered) {later before : List HistoryEntry} {t : Nat}
    {entries : Entries} (heq : h.history = later ++ ⟨r, t, .submitted n entries⟩ :: before) :
    n < h.writes.length := by
  have hall : Throughout IsNumbered (later ++ ⟨r, t, .submitted n entries⟩ :: before) :=
    heq ▸ hn.numbered
  rw [hn.count, heq, submissions_append, submissions_submitted, hall.split n entries rfl]
  omega

/-- What has a lower number was submitted earlier. -/
theorem Numbered.submitted_before (hn : h.Numbered) {later before : List HistoryEntry}
    {t t' m : Nat} {entries entries' : Entries}
    (heq : h.history = later ++ ⟨r, t, .submitted n entries⟩ :: before)
    (hm : ⟨r', t', .submitted m entries'⟩ ∈ h.history) (hlt : m < n) :
    ⟨r', t', .submitted m entries'⟩ ∈ before := by
  have hall := hn.numbered
  rw [heq] at hm hall
  rcases List.mem_append.mp hm with hm | hm
  · -- Later than the other write, it would have a higher number.
    obtain ⟨newer, older, rfl⟩ := List.append_of_mem hm
    have hn' := hall.split n entries rfl
    rw [List.append_assoc, List.cons_append] at hall
    have hm' := hall.split m entries' rfl
    rw [submissions_append, submissions_submitted] at hm'
    omega
  · rcases List.mem_cons.mp hm with heq' | hm
    · cases heq'
      exact absurd hlt (Nat.lt_irrefl _)
    · exact hm

/-! ### Writes that are over -/

/-- Whether the write of a number can do nothing more. -/
def IsOver (h : Host) (n : Nat) : Prop :=
  ∃ w, h.writes[n]? = some w ∧ w.isLive = false

/-- The turn of a write that is over does nothing. -/
theorem IsOver.turnWrite (ho : h.IsOver n) : h.turnWrite n = h := by
  obtain ⟨w, hw, hl⟩ := ho
  obtain heq | ⟨w', status, es, hturn⟩ := turnWrite_cases n h
  · exact heq
  · obtain rfl := Option.some.inj (hturn.found.symm.trans hw)
    rw [hturn.live] at hl
    cases hl

/-- A write that is over stays so after every move. -/
theorem IsOver.move (ho : h.IsOver n) (hm : Move s h h') : h'.IsOver n := by
  obtain ⟨w, hw, hl⟩ := ho
  refine hm.elim (fun hrests => ⟨w, hrests.writes ▸ hw, hl⟩) (fun m write status es hturn => ?_)
    fun r _ _ _ h₁ _ _ _ hact heq => ?_
  · refine ⟨w, ?_, hl⟩
    rw [hturn.getElem?, if_neg, hw]
    rintro rfl
    obtain rfl := Option.some.inj (hturn.found.symm.trans hw)
    rw [hturn.live] at hl
    cases hl
  · obtain ⟨status, hw'⟩ := hact.books.kept hw
    subst heq
    refine ⟨_, hw', Bool.eq_false_iff.mpr fun hl' => ?_⟩
    obtain hold | ⟨-, a', rfl, hwait⟩ := hact.books.live hw' hl'
    · obtain heq := Option.some.inj (hold.symm.trans hw)
      rw [heq, hl] at hl'
      cases hl'
    · obtain ⟨rfl, -⟩ := hact.books.waits hwait
      rw [List.getElem?_eq_none (Nat.le_refl _)] at hw
      cases hw

/-- **A write that is over stays so.** -/
theorem IsOver.reaches (ho : h.IsOver n) (hr : Reaches s h h') : h'.IsOver n := by
  induction hr with
  | refl => exact ho
  | tail _ hm ih => exact ih.move hm

/-! ### Live writes -/

/-- A run that ends while it commits was dropped. -/
theorem eventsOf_of_ends {outcome : RunEnd} (hadv : h.advance s r = some h')
    (hst : h.status? r = some (.active a)) (hcommit : a.stage.isCommitting = true)
    (hst' : h'.status? r = some (.ended outcome)) :
    eventsOf r h'.history = .ended .aborted :: eventsOf r h.history := by
  obtain ⟨st, es, st', h₁, hst₁, hadds, hc, rfl⟩ := advance_counts hadv
  obtain rfl := Option.some.inj (hst.symm.trans hst₁)
  rw [hadds.status?_setStatus hst, if_pos rfl] at hst'
  obtain rfl := Option.some.inj hst'
  cases hc with
  | ends _ hdrop =>
    rw [hdrop a rfl hcommit] at hadds
    exact hadds.eventsOf_self

/-- Whether a run was dropped while it waited for the write of a number. -/
def Abandoned (h : Host) (r n : Nat) : Prop :=
  (∃ outcome, h.status? r = some (.ended outcome)) ∧
    abandonedFlush? (eventsOf r h.history) = some n

/-- **Which writes could still act on the store**: those that are waited for, and those that a run
left behind when it was dropped while it waited for them. -/
theorem Reaches.live_cases (hf : h₀.Fresh) (hr : Reaches s h₀ h) (hw : h.writes[n]? = some w)
    (hl : w.isLive = true) : h.Awaits w.run n ∨ h.Abandoned w.run n := by
  induction hr generalizing w with
  | refl =>
    rw [hf.writes] at hw
    cases hw
  | @tail h h' hr hm ih =>
    refine hm.elim (fun hrests => ?_) (fun m write status es hturn => ?_)
      fun r st es st' h₁ hadv hst hlive hact heq => ?_
    · rw [hrests.writes] at hw
      obtain ⟨a, hst, hwait⟩ | ⟨⟨outcome, hend⟩, hopen⟩ := ih hw hl
      · exact .inl ⟨a, hrests.status?_eq hst, hwait⟩
      · exact .inr ⟨⟨outcome, hrests.status?_eq hend⟩, hrests.history ▸ hopen⟩
    · obtain ⟨w₀, hw₀, hl₀, hrun⟩ := hturn.was_live hw hl
      obtain ⟨a, hst, hwait⟩ | ⟨⟨outcome, hend⟩, hopen⟩ := hrun ▸ ih hw₀ hl₀
      · exact .inl ⟨a, (hturn.status? _).trans hst, hwait⟩
      · refine .inr ⟨⟨outcome, (hturn.status? _).trans hend⟩, ?_⟩
        by_cases hof : write.run = w.run
        · rw [← hof] at hopen ⊢
          rw [hturn.adds.eventsOf_self, abandonedFlush?_append, hopen]
          exact fun e he => hturn.events e (List.mem_reverse.mp he)
        · rw [hturn.adds.eventsOf_of_ne hof, hopen]
    · subst heq
      obtain hold | ⟨rfl, a', rfl, hwait⟩ := hact.books.live hw hl
      · obtain ⟨a, ha, hwait⟩ | ⟨⟨outcome, hend⟩, hopen⟩ := ih hold hl
        · by_cases hrun : r = w.run
          · subst hrun
            obtain rfl := Option.some.inj (hst.symm.trans ha)
            obtain ⟨outcome, rfl, -⟩ := hact.books.breaks_off hwait hw hl
            have hend : (h₁.setStatus w.run (.ended outcome)).status? w.run =
                some (.ended outcome) := by
              rw [hact.status? ha, if_pos rfl]
            refine .inr ⟨⟨outcome, hend⟩, ?_⟩
            rw [eventsOf_of_ends hadv ha (isCommitting_of_waiting hwait) hend]
            exact Reaches.openFlush?_of_waiting hf hr ha hwait
          · exact .inl ⟨a, by rw [hact.status? hst, if_neg hrun, ha], hwait⟩
        · have hrun : r ≠ w.run := by
            rintro rfl
            exact hlive outcome (Option.some.inj (hst.symm.trans hend))
          refine .inr ⟨⟨outcome, by rw [hact.status? hst, if_neg hrun, hend]⟩, ?_⟩
          change abandonedFlush? (eventsOf w.run h₁.history) = some n
          rw [hact.adds.eventsOf_of_ne hrun, hopen]
      · exact .inl ⟨a', by rw [hact.status? hst, if_pos rfl], hwait⟩

end Host

end ChangeCapture
