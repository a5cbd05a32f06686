import ChangeCapture.Proofs.Run.Course

/-!
# No poll after a request

A run that was granted a stop or an interrupt enters no further poll, whether it was asked from
outside or by its own consumer.

## Main definitions

* `Phase.Halts`, `RunStatus.Halts`: whether a run enters no further poll.

## Main results

* `Course.since` — what is true of a run as it is asked, and stays true, is true of all that happens
  since.
* `Course.no_poll_since`, `Course.no_poll_after` — no poll is entered after a request that was
  granted.
-/

namespace ChangeCapture

namespace Course

open Host

variable {s : Setup} {h₀ h : Host} {asked : List Asked} {r : Nat}

/-- **What is true of a run as it is asked, and stays true, is true of all that happens since.** -/
theorem since {S : Asked → Prop} {Q : RunStatus → List Event → Lifecycle → Prop} (hf : h₀.Fresh)
    (starts : ∀ {q a}, S q → q.isGranted = true → q.host.status? r = some (.active a) →
      Q (.active a) [] (q.host.lifecycle.heed q.control))
    (idles : ∀ {st es l es'}, es'.all Event.isQuiet = true → Q st es l → Q st (es' ++ es) l)
    (asks : ∀ {a es l} c, Q (.active a) es l → Q (.active a) es (l.heed c))
    (flows : ∀ {h a es st' es'} {l' : Lifecycle}, Flow s h (.active a) es' st' l' →
      Q (.active a) es h.lifecycle → Q st' (es'.reverse ++ es) l')
    (ended : ∀ {outcome es l l'}, Q (.ended outcome) es l → Q (.ended outcome) es l')
    (hc : Course s h₀ asked h) {q : Asked} (hq : q ∈ asked) (hS : S q)
    (hgranted : q.isGranted = true) (hact : q.host.isActive r = true) :
    ∃ st newer, h.status? r = some st ∧
      eventsOf r h.history = newer ++ eventsOf r q.host.history ∧ Q st newer h.lifecycle := by
  obtain hst | ⟨st, hst, hreq⟩ := status?_cases r h
  · rw [hc.unheard hst q hq] at hact
    cases hact
  · have hsince := hc.life (P := fun asked st es l => ∀ q ∈ asked, S q → q.isGranted = true →
      q.host.isActive r = true →
        ∃ newer, es = newer ++ eventsOf r q.host.history ∧ Q st newer l) hf ?_ ?_ ?_ ?_ ?_ hst hreq
    · obtain ⟨newer, heq, hQ⟩ := hsince q hq hS hgranted hact
      exact ⟨st, newer, hst, heq, hQ⟩
    · intro asked h es st' l' _ hno _ q hq _ _ hact
      rw [hno q hq] at hact
      cases hact
    · intro asked st es l es' hes ih q hq hS hgranted hact
      obtain ⟨newer, rfl, hQ⟩ := ih q hq hS hgranted hact
      exact ⟨es' ++ newer, (List.append_assoc ..).symm, idles hes hQ⟩
    · intro asked h a c ha ih q hq hS hgranted hact
      rcases List.mem_cons.mp hq with rfl | hq
      · exact ⟨[], rfl, starts hS hgranted ha⟩
      · obtain ⟨newer, heq, hQ⟩ := ih q hq hS hgranted hact
        exact ⟨newer, heq, asks c hQ⟩
    · intro asked h a es st' l' _ _ hflow ih q hq hS hgranted hact
      obtain ⟨newer, heq, hQ⟩ := ih q hq hS hgranted hact
      exact ⟨es.reverse ++ newer, by rw [heq, List.append_assoc], flows hflow hQ⟩
    · intro asked outcome es l l' newer hno ih q hq hS hgranted hact
      rcases List.mem_append.mp hq with hq | hq
      · rw [hno q hq] at hact
        cases hact
      · obtain ⟨newer, heq, hQ⟩ := ih q hq hS hgranted hact
        exact ⟨newer, heq, ended hQ⟩

end Course

/-! ### No further poll -/

/-- Whether a run in a phase enters no further poll. -/
def Phase.Halts (l : Lifecycle) : Phase → Prop
  | .startUp | .loop => l.isHalting = true
  | .final | .out _ => True

/-- Whether a run enters no further poll. -/
def RunStatus.Halts (l : Lifecycle) : RunStatus → Prop
  | .active a => a.stage.phase.Halts l
  | .requested | .ended _ => True

/-- A lifecycle that lets no run poll lets none in any phase. -/
theorem Phase.halts_of_isHalting {l : Lifecycle} (hl : l.isHalting = true) (p : Phase) :
    p.Halts l := by
  cases p with
  | startUp | loop => exact hl
  | final | out result => trivial

/-- What halts under a lifecycle halts after a request to it. -/
theorem Phase.Halts.heed {l : Lifecycle} {p : Phase} (hp : p.Halts l) (c : Control) :
    p.Halts (l.heed c) := by
  cases p with
  | startUp | loop => exact Lifecycle.isHalting_heed hp c
  | final | out result => trivial

namespace Host

variable {s : Setup} {h : Host} {a : Active} {es : List Event} {st' : RunStatus} {l' : Lifecycle}

/-- **A run that halts enters no further poll**, and still halts. -/
theorem Flow.halts (hf : Flow s h (.active a) es st' l')
    (hh : (RunStatus.active a).Halts h.lifecycle) : .poll ∉ es ∧ st'.Halts l' := by
  rw [RunStatus.Halts] at hh
  cases hf with
  | prepares ha hes ha' =>
    rw [ha] at hh
    exact ⟨Event.not_mem_of_all hes rfl, Phase.halts_of_isHalting hh _⟩
  | begins ha hes ha' =>
    rw [ha] at hh
    refine ⟨?_, Phase.halts_of_isHalting hh _⟩
    simpa using Event.not_mem_of_all hes rfl
  | polls ha hgoes =>
    rw [ha] at hh
    exact absurd (hgoes.symm.trans hh) Bool.false_ne_true
  | stops _ _ ha' | fails _ _ ha' =>
    refine ⟨by simp, ?_⟩
    rw [RunStatus.Halts, ha']
    trivial
  | heeds _ _ ha' | reports _ _ ha' =>
    refine ⟨by simp, ?_⟩
    rw [RunStatus.Halts, ha']
    trivial
  | idles ha _ ha' | receives ha ha' | delivers ha ha' =>
    rw [ha] at hh
    exact ⟨by simp, Phase.halts_of_isHalting hh _⟩
  | hands cs ha ha' | rejects cs ha _ ha' =>
    rw [ha] at hh
    refine ⟨?_, Phase.halts_of_isHalting (Lifecycle.isHalting_heedAll hh cs) _⟩
    simp [Lifecycle.not_mem_replies]
  | @consults _ a' _ _ _ _ _ final ha hes hes' ha' =>
    refine ⟨?_, ?_⟩
    · have hpoll := Event.not_mem_of_all hes (e := .poll) rfl
      have hpoll' := Event.not_mem_of_all hes' (e := .poll) rfl
      simp [hpoll, hpoll']
    · rw [ha] at hh
      cases final with
      | false => exact Phase.halts_of_isHalting hh _
      | true =>
        rcases ha' with ha' | ⟨number, deadline, ha'⟩ <;> rw [RunStatus.Halts, ha'] <;> trivial
  | @flushes _ a' _ _ _ final ha hes ha' =>
    refine ⟨Event.not_mem_of_all hes rfl, ?_⟩
    rw [ha] at hh
    cases final with
    | false => exact Phase.halts_of_isHalting hh _
    | true =>
      rw [RunStatus.Halts, ha']
      trivial
  | releases ha hes ha' =>
    refine ⟨Event.not_mem_of_all hes rfl, ?_⟩
    rw [RunStatus.Halts, ha']
    trivial
  | ends hpoll => exact ⟨hpoll, trivial⟩

/-- **A run whose consumer was granted a request enters no further poll.** -/
theorem Flow.halts_of_controlled {c : Control} (hf : Flow s h (.active a) es st' l')
    (hm : .controlled c true ∈ es) : .poll ∉ es ∧ st'.Halts l' := by
  have loud : ∀ {es : List Event}, es.all Event.isQuiet = true → .controlled c true ∉ es :=
    fun hes => Event.not_mem_of_all hes rfl
  cases hf with
  | hands cs | rejects cs =>
    have hreply : .controlled c true ∈ h.lifecycle.replies cs := by simpa using hm
    refine ⟨by simp [Lifecycle.not_mem_replies], ?_⟩
    exact Phase.halts_of_isHalting (Lifecycle.isHalting_of_mem_replies hreply) _
  | ends hpoll => exact ⟨hpoll, trivial⟩
  | prepares _ hes | flushes _ hes | releases _ hes => exact absurd hm (loud hes)
  | begins _ hes => simp [loud hes] at hm
  | consults _ hes hes' => simp [loud hes, loud hes'] at hm
  | _ => simp at hm

end Host

namespace Course

open Host

variable {s : Setup} {h₀ h : Host} {asked : List Asked} {r : Nat}

/-- **No poll is entered after a request from outside that was granted.** -/
theorem no_poll_since (hf : h₀.Fresh) (hc : Course s h₀ asked h) {q : Asked} (hq : q ∈ asked)
    (hgranted : q.isGranted = true) (hact : q.host.isActive r = true) :
    ∃ newer, eventsOf r h.history = newer ++ eventsOf r q.host.history ∧ .poll ∉ newer := by
  have hsince := hc.since (S := fun _ => True) (Q := fun st es l => st.Halts l ∧ .poll ∉ es) hf
    ?_ ?_ ?_ ?_ ?_ hq trivial hgranted hact
  · obtain ⟨st, newer, -, heq, -, hpoll⟩ := hsince
    exact ⟨newer, heq, hpoll⟩
  · intro q a _ hgranted _
    rw [Asked.isGranted_eq] at hgranted
    exact ⟨Phase.halts_of_isHalting (Lifecycle.isHalting_of_grants hgranted) _, List.not_mem_nil⟩
  · intro st es l es' hes ⟨hhalts, hpoll⟩
    have hpoll' : .poll ∉ es' := Event.not_mem_of_all hes rfl
    exact ⟨hhalts, by simp [hpoll, hpoll']⟩
  · intro a es l c ⟨hhalts, hpoll⟩
    exact ⟨Phase.Halts.heed hhalts c, hpoll⟩
  · intro h a es st' es' l' hflow ⟨hhalts, hpoll⟩
    obtain ⟨hpoll', hhalts'⟩ := hflow.halts hhalts
    exact ⟨hhalts', by simp [hpoll, hpoll']⟩
  · exact fun ⟨_, hpoll⟩ => ⟨trivial, hpoll⟩

/-- **No poll is entered after a request of the consumer that was granted.** -/
theorem no_poll_after (hf : h₀.Fresh) (hc : Course s h₀ asked h) {c : Control}
    {newer older : List Event}
    (heq : eventsOf r h.history = newer ++ .controlled c true :: older) : .poll ∉ newer := by
  obtain hst | ⟨st, hst, hreq⟩ := status?_cases r h
  · rw [hc.eventsOf_eq_nil hf hst] at heq
    simp at heq
  · refine (hc.life (P := fun _ st es l => ∀ newer c older,
      es = newer ++ .controlled c true :: older → .poll ∉ newer ∧ st.Halts l) hf
      ?_ ?_ ?_ ?_ ?_ hst hreq newer c older heq).1
    · intro asked h es st' l' _ _ hflow newer c older heq
      have hm : .controlled c true ∈ es := by
        rw [← List.mem_reverse, heq]
        simp
      cases hflow with
      | passes | drops => cases hm
      | enters _ hes | turnsBack _ hes =>
        rw [List.mem_cons] at hm
        exact absurd (hm.resolve_left nofun) (Event.not_mem_of_all hes rfl)
    · intro asked st es l es' hes ih newer c older heq
      rcases mem_append_cases heq with ⟨middle, rfl, rfl⟩ | ⟨hm, -⟩
      · obtain ⟨hpoll, hhalts⟩ := ih middle c older rfl
        have hpoll' : .poll ∉ es' := Event.not_mem_of_all hes rfl
        exact ⟨by simp [hpoll, hpoll'], hhalts⟩
      · exact absurd hm (Event.not_mem_of_all hes rfl)
    · intro asked h a c' _ ih newer c older heq
      obtain ⟨hpoll, hhalts⟩ := ih newer c older heq
      exact ⟨hpoll, Phase.Halts.heed hhalts c'⟩
    · intro asked h a es st' l' _ _ hflow ih newer c older heq
      rcases mem_append_cases heq with ⟨middle, rfl, hold⟩ | ⟨hm, hsub⟩
      · obtain ⟨hpoll, hhalts⟩ := ih middle c older hold
        obtain ⟨hpoll', hhalts'⟩ := hflow.halts hhalts
        exact ⟨by simp [hpoll, hpoll'], hhalts'⟩
      · obtain ⟨hpoll, hhalts⟩ := hflow.halts_of_controlled (List.mem_reverse.mp hm)
        exact ⟨fun hno => hpoll (List.mem_reverse.mp (hsub hno)), hhalts⟩
    · exact fun _ _ ih newer c older heq => ⟨(ih newer c older heq).1, trivial⟩

end Course

end ChangeCapture
