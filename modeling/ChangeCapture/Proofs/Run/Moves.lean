import ChangeCapture.Proofs.Schedule
import ChangeCapture.Run.Builder
import ChangeCapture.Run.Machine
import Mathlib.Logic.Relation

/-!
# What may happen to a host

Runs, background writes and waiters take turns, and meanwhile the host is asked for things. How the
turns fall is left open: after any move any other may follow. Every schedule is such a sequence of
moves.

A move adds events to the history and never takes any away. A step of a run adds events of that run,
and changes how far that run is and no other.

## Main definitions

* `eventsOf`: the events of one run.
* `Host.status?`: how far a run is.
* `Host.Move`, `Host.Reaches`, `Host.Fresh`.

## Main results

* `Host.advance_leads` — what the functions of the steps do, a step does.
* `Host.Reaches.waitUntil` — a schedule only reaches what moves reach.
-/

namespace ChangeCapture

/-! ### The events of a run -/

/-- The events of a run, the newest first. -/
def eventsOf (r : Nat) (history : List HistoryEntry) : List Event :=
  (history.filter (·.run = r)).map (·.event)

/-- The events of a run in two parts of a history. -/
theorem eventsOf_append (r : Nat) (newer older : List HistoryEntry) :
    eventsOf r (newer ++ older) = eventsOf r newer ++ eventsOf r older := by
  rw [eventsOf, List.filter_append, List.map_append]
  rfl

/-- An event of a run is one of its events. -/
theorem eventsOf_cons_self (r now : Nat) (e : Event) (history : List HistoryEntry) :
    eventsOf r (⟨r, now, e⟩ :: history) = e :: eventsOf r history := by
  simp [eventsOf]

/-- Where an event of a run stands in the history. -/
theorem exists_of_eventsOf_eq {r : Nat} {history : List HistoryEntry} {newer older : List Event}
    {e : Event} (h : eventsOf r history = newer ++ e :: older) :
    ∃ later now earlier, history = later ++ ⟨r, now, e⟩ :: earlier ∧ eventsOf r later = newer ∧
      eventsOf r earlier = older := by
  obtain ⟨before, after, hfilter, rfl, hafter⟩ := List.map_eq_append_iff.mp h
  obtain ⟨x, earlier', rfl, rfl, rfl⟩ := List.map_eq_cons_iff.mp hafter
  obtain ⟨later₁, rest, rfl, rfl, hrest⟩ := List.filter_eq_append_iff.mp hfilter
  obtain ⟨later₂, earlier, rfl, hno, hx, rfl⟩ := List.filter_eq_cons_iff.mp hrest
  obtain rfl : x.run = r := by simpa using hx
  refine ⟨later₁ ++ later₂, x.instant, earlier, (List.append_assoc ..).symm, ?_, rfl⟩
  rw [eventsOf_append, eventsOf, eventsOf, List.filter_eq_nil_iff.mpr hno]
  exact List.append_nil _

/-- All events of a run are its own. -/
theorem eventsOf_map_self (r now : Nat) (es : List Event) :
    eventsOf r (es.map (HistoryEntry.mk r now)) = es := by
  rw [eventsOf, List.filter_eq_self.mpr (by simp), List.map_map]
  exact List.map_id es

/-- The events of a run are nobody else's. -/
theorem eventsOf_map_of_ne {r r' : Nat} (h : r ≠ r') (now : Nat) (es : List Event) :
    eventsOf r' (es.map (HistoryEntry.mk r now)) = [] := by
  rw [eventsOf, List.filter_eq_nil_iff.mpr (by simp [h]), List.map_nil]

/-- An event of a run stands in the history. -/
theorem mem_eventsOf {r : Nat} {e : Event} {history : List HistoryEntry} :
    e ∈ eventsOf r history ↔ ∃ now, ⟨r, now, e⟩ ∈ history := by
  simp only [eventsOf, List.mem_map, List.mem_filter, decide_eq_true_eq]
  constructor
  · rintro ⟨x, ⟨hx, rfl⟩, rfl⟩
    exact ⟨x.instant, hx⟩
  · rintro ⟨now, hx⟩
    exact ⟨_, ⟨hx, rfl⟩, rfl⟩

/-- Events that are all of a kind are no others. -/
theorem Event.not_mem_of_all {kind : Event → Bool} {es : List Event} {e : Event}
    (hes : es.all kind = true) (he : kind e = false) : e ∉ es := by
  intro hm
  have hkind := List.all_eq_true.mp hes e hm
  rw [he] at hkind
  cases hkind

/-- What comes before an element of a list, and what comes after it. -/
theorem eq_take_append_cons_drop {α : Type} {es : List α} {n : Nat} {e : α} (h : es[n]? = some e) :
    es = es.take n ++ e :: es.drop (n + 1) := by
  obtain ⟨hlt, rfl⟩ := List.getElem?_eq_some_iff.mp h
  rw [← List.drop_eq_getElem_cons hlt, List.take_append_drop]

/-- Where an element stands in two lists, the newer first. -/
theorem append_cons_cases {α : Type} {new old later earlier : List α} {e : α}
    (h : new ++ old = later ++ e :: earlier) :
    (∃ middle, later = new ++ middle ∧ old = middle ++ e :: earlier) ∨
      ∃ middle, new = later ++ e :: middle ∧ earlier = middle ++ old := by
  obtain hold | ⟨middle, rfl, heq⟩ := List.append_eq_append_iff.mp h
  · exact .inl hold
  · cases middle with
    | nil => exact .inl ⟨[], by simp, by simpa using heq.symm⟩
    | cons e' middle =>
      obtain ⟨rfl, rfl⟩ := List.cons.inj heq
      exact .inr ⟨middle, rfl, rfl⟩

/-- An event stands in the older of two lists, or all that is newer is in the newer one. -/
theorem mem_append_cases {es es₀ newer older : List Event} {e : Event}
    (h : es ++ es₀ = newer ++ e :: older) :
    (∃ middle, newer = es ++ middle ∧ es₀ = middle ++ e :: older) ∨ e ∈ es ∧ newer ⊆ es := by
  obtain hold | ⟨middle, rfl, -⟩ := append_cons_cases h
  · exact .inl hold
  · exact .inr ⟨by simp, List.subset_append_left _ _⟩

namespace Host

/-- Several events are added at once. -/
theorem emitAll_eq (r : Nat) (es : List Event) (h : Host) :
    h.emitAll r es =
      { h with history := (es.map (HistoryEntry.mk r h.now)).reverse ++ h.history } := by
  induction es generalizing h with
  | nil => rfl
  | cons e es ih =>
    change (h.emit r e).emitAll r es = _
    rw [ih, List.map_cons, List.reverse_cons, List.append_assoc]
    rfl

/-- **What a step adds**: events of one run, in order, at the instant at which it is taken. The
clock stands still, and how far the runs are is written down afterwards. -/
structure Adds (r : Nat) (es : List Event) (h h' : Host) : Prop where
  history : h'.history = (es.map (HistoryEntry.mk r h.now)).reverse ++ h.history
  runs : h'.runs = h.runs
  now : h'.now = h.now

/-- One event is added after others. -/
theorem Adds.emit {r : Nat} {es : List Event} {h h' : Host} (ha : h.Adds r es h') (e : Event) :
    h.Adds r (es ++ [e]) (h'.emit r e) := by
  refine ⟨?_, ha.runs, ha.now⟩
  rw [Host.emit, ha.history, ha.now]
  simp

/-- Several events are added after others. -/
theorem Adds.emitAll {r : Nat} {es : List Event} {h h' : Host} (ha : h.Adds r es h')
    (es' : List Event) :
    h.Adds r (es ++ es') (h'.emitAll r es') := by
  rw [emitAll_eq]
  refine ⟨?_, ha.runs, ha.now⟩
  rw [ha.history, ha.now]
  simp

/-- What a step adds can be told from what it leads to. -/
theorem Adds.unique {r : Nat} {es es' : List Event} {h h' : Host} (ha : h.Adds r es h')
    (ha' : h.Adds r es' h') : es = es' := by
  have heq := List.append_cancel_right (ha.history.symm.trans ha'.history)
  refine (List.map_inj_right ?_).mp (List.reverse_inj.mp heq)
  intro e e' he
  exact (HistoryEntry.mk.inj he).2.2

/-- The run's events after a step. -/
theorem Adds.eventsOf_self {r : Nat} {es : List Event} {h h' : Host} (ha : h.Adds r es h') :
    eventsOf r h'.history = es.reverse ++ eventsOf r h.history := by
  rw [ha.history, eventsOf_append, ← List.map_reverse, eventsOf_map_self]

/-- The events of the other runs stay. -/
theorem Adds.eventsOf_of_ne {r r' : Nat} {es : List Event} {h h' : Host} (ha : h.Adds r es h')
    (hr : r ≠ r') :
    eventsOf r' h'.history = eventsOf r' h.history := by
  rw [ha.history, eventsOf_append, ← List.map_reverse, eventsOf_map_of_ne hr, List.nil_append]

/-- An event of a run is one that was added, or was one of its events before. -/
theorem Adds.mem_eventsOf_iff {r r' : Nat} {e : Event} {es : List Event} {h h' : Host}
    (ha : h.Adds r es h') :
    e ∈ eventsOf r' h'.history ↔ (r = r' ∧ e ∈ es) ∨ e ∈ eventsOf r' h.history := by
  by_cases hr : r = r'
  · rw [← hr, ha.eventsOf_self, List.mem_append, List.mem_reverse]
    simp
  · rw [ha.eventsOf_of_ne hr]
    simp [hr]

/-- The events of a run only become more. -/
theorem Adds.mem_eventsOf {r r' : Nat} {e : Event} {es : List Event} {h h' : Host}
    (ha : h.Adds r es h') (he : e ∈ eventsOf r' h.history) : e ∈ eventsOf r' h'.history :=
  ha.mem_eventsOf_iff.mpr (.inr he)

/-- What is added is an event of the run. -/
theorem Adds.mem_eventsOf_self {r : Nat} {e : Event} {es : List Event} {h h' : Host}
    (ha : h.Adds r es h') (he : e ∈ es) : e ∈ eventsOf r h'.history :=
  ha.mem_eventsOf_iff.mpr (.inl ⟨rfl, he⟩)

/-! ### How far a run is -/

/-- How far the run of a number is. -/
def status? (r : Nat) (h : Host) : Option RunStatus :=
  (h.runs[r]?).map Run.status

/-- Writing down how far a run is changes that, and nothing for other runs. -/
theorem status?_setStatus (r r' : Nat) (st : RunStatus) (h : Host) :
    (h.setStatus r st).status? r' =
      if r = r' then (h.status? r).map fun _ => st else h.status? r' := by
  rw [status?, setStatus, List.getElem?_modify]
  by_cases hr : r = r'
  · subst hr
    simp [status?, Function.comp_def]
  · simp [hr, status?]

/-- A step itself leaves how far the runs are. -/
theorem Adds.status? {r : Nat} {es : List Event} {h h' : Host} (ha : h.Adds r es h') (r' : Nat) :
    h'.status? r' = h.status? r' := by
  rw [Host.status?, ha.runs]
  rfl

/-- How far the runs are after a step, once it is written down. -/
theorem Adds.status?_setStatus {r : Nat} {es : List Event} {h h' : Host} {st : RunStatus}
    (ha : h.Adds r es h') (hst : h.status? r = some st) (st' : RunStatus) (r' : Nat) :
    (h'.setStatus r st').status? r' = if r = r' then some st' else h.status? r' := by
  rw [Host.status?_setStatus, ha.status?, ha.status?, hst]
  rfl

/-- A run was asked for at most, or it has taken a step. -/
theorem status?_cases (r : Nat) (h : Host) :
    (h.status? r = none ∨ h.status? r = some .requested) ∨
      ∃ st, h.status? r = some st ∧ st ≠ .requested := by
  cases hst : h.status? r with
  | none => exact .inl (.inl rfl)
  | some st =>
    cases st with
    | requested => exact .inl (.inr rfl)
    | active a => exact .inr ⟨_, rfl, by simp⟩
    | ended outcome => exact .inr ⟨_, rfl, by simp⟩

/-- A run that is dropped stays where it is until its next turn. -/
theorem status?_abort (r r' : Nat) (h : Host) : (h.abort r).status? r' = h.status? r' := by
  rw [status?, abort, List.getElem?_modify, status?]
  by_cases hr : r = r'
  · subst hr
    cases h.runs[r]? <;> simp
  · simp [hr]

/-- A run that is asked for is the last one. -/
theorem status?_request (h : Host) (r : Nat) :
    h.request.status? r = if r = h.runs.length then some .requested else h.status? r := by
  rw [status?, request, status?]
  rcases Nat.lt_trichotomy r h.runs.length with hr | rfl | hr
  · rw [List.getElem?_append_left hr, if_neg (Nat.ne_of_lt hr)]
  · rw [List.getElem?_append_right (Nat.le_refl _), if_pos rfl]
    simp
  · rw [List.getElem?_eq_none (by simp; omega), List.getElem?_eq_none (by omega), if_neg (by omega)]

end Host

/-- Whether a run has the one place for runs. -/
def Lifecycle.isTaken (l : Lifecycle) : Bool :=
  match l.state with
  | .running | .stopping => true
  | .idle | .stopped => false

/-! ### Steps -/

/-- What a step leads to, if it is taken. -/
def Progress.Leads (P : RunStatus → Host → Prop) : Progress → Prop
  | .blocked => True
  | .goesOn a h => P (.active a) h
  | .ends outcome h => P (.ended outcome) h

/-- What a step leads to can be weakened. -/
theorem Progress.Leads.imp {P Q : RunStatus → Host → Prop} {p : Progress} (h : p.Leads P)
    (himp : ∀ st h, P st h → Q st h) : p.Leads Q := by
  cases p with
  | blocked => trivial
  | goesOn a h' => exact himp _ _ h
  | ends outcome h' => exact himp _ _ h

/-- Two things that are known of a step are both known. -/
theorem Progress.Leads.and {P Q : RunStatus → Host → Prop} {p : Progress} (hp : p.Leads P)
    (hq : p.Leads Q) :
    p.Leads fun st h => P st h ∧ Q st h := by
  cases p with
  | blocked => trivial
  | goesOn a h' => exact ⟨hp, hq⟩
  | ends outcome h' => exact ⟨hp, hq⟩

namespace Host

variable {s : Setup} {r : Nat} {h h' : Host}

/-- **What the functions of the steps do, a step does**, and then it is written down how far the run
is. -/
theorem advance_leads {Q : RunStatus → RunStatus → Host → Prop}
    (begins : h.status? r = some .requested → (h.begin s r).Leads (Q .requested))
    (steps : ∀ a, h.status? r = some (.active a) → (h.step s r a).Leads (Q (.active a)))
    (drops : ∀ st, h.status? r = some st → (h.dropRun r st).Leads (Q st))
    (hadv : h.advance s r = some h') :
    ∃ st st' h₁, h.status? r = some st ∧ Q st st' h₁ ∧ h' = h₁.setStatus r st' := by
  rw [advance] at hadv
  cases hrun : h.runs[r]? with
  | none => simp [hrun] at hadv
  | some run =>
    have hst : h.status? r = some run.status := by rw [status?, hrun]; rfl
    have absorbed : ∀ {p : Progress}, p.Leads (Q run.status) → absorb r p = some h' →
        ∃ st st' h₁, h.status? r = some st ∧ Q st st' h₁ ∧ h' = h₁.setStatus r st' := by
      intro p hp habs
      cases p with
      | blocked => cases habs
      | goesOn a h₁ => exact ⟨_, _, h₁, hst, hp, (Option.some.inj habs).symm⟩
      | ends outcome h₁ => exact ⟨_, _, h₁, hst, hp, (Option.some.inj habs).symm⟩
    rw [hrun] at hadv
    dsimp only at hadv
    by_cases hab : run.aborting = true
    · rw [if_pos hab] at hadv
      exact absorbed (drops _ hst) hadv
    · rw [if_neg hab] at hadv
      cases hstatus : run.status with
      | requested =>
        rw [hstatus] at hadv hst absorbed
        exact absorbed (begins hst) hadv
      | active a =>
        rw [hstatus] at hadv hst absorbed
        exact absorbed (steps a hst) hadv
      | ended outcome =>
        rw [hstatus] at hadv
        cases hadv

/-! ### Moves -/

/-- **What may happen to a host**: it is asked for something, a run takes one step, a write or a
waiter a turn, or time goes by. -/
inductive Move (s : Setup) (h : Host) : Host → Prop where
  | request : Move s h h.request
  | provide (result : Polled) : Move s h (h.provide result)
  | ask (c : Control) : Move s h (h.ask c).2
  | abort (r : Nat) : Move s h (h.abort r)
  | startWaiter (name : Int) (wish : Wish) : Move s h (h.startWaiter name wish)
  | look (number : Nat) : Move s h (h.turnWaiter number)
  | write (number : Nat) : Move s h (h.turnWrite number)
  | run (r : Nat) {h' : Host} (hr : h.advance s r = some h') : Move s h h'
  | pass {now : Nat} (hnow : h.now ≤ now) : Move s h { h with now }

/-- Any moves, one after the other. -/
def Reaches (s : Setup) : Host → Host → Prop :=
  Relation.ReflTransGen (Move s)

/-- A host before anything was asked of it. Its store may hold anything, and its counters may stand
anywhere. -/
structure Fresh (h : Host) : Prop where
  runs : h.runs = []
  writes : h.writes = []
  history : h.history = []
  lifecycle : h.lifecycle = {}

/-- A host that was just built is fresh. -/
theorem Fresh.build {d : HostDraft} (hd : d.build = .ok (s, h)) : h.Fresh := by
  rw [HostDraft.build] at hd
  split at hd
  · cases hd
  · split at hd
    · cases hd
    · obtain ⟨-, rfl⟩ := Prod.mk.inj (Except.ok.inj hd)
      exact ⟨rfl, rfl, rfl, rfl⟩

/-- No run of a fresh host was asked for. -/
theorem Fresh.status? (hf : h.Fresh) (r : Nat) : h.status? r = none := by
  rw [Host.status?, hf.runs]
  rfl

/-! ### Schedules -/

/-- **What the steps of a run keep is kept by a run that goes on.** -/
theorem runOn_of_steps {P : Host → Prop}
    (steps : ∀ {h h' : Host}, h.advance s r = some h' → P h → P h') (hp : P h) (fuel : Nat) :
    P (h.runOn s r fuel) := by
  induction fuel generalizing h with
  | zero => exact hp
  | succ fuel ih =>
    rw [Host.runOn]
    split
    · exact hp
    · rename_i h' hadv
      exact ih (steps hadv hp)

/-- A run that goes on takes steps. -/
theorem Reaches.runOn {h₀ : Host} (hr : Reaches s h₀ h) (r fuel : Nat) :
    Reaches s h₀ (h.runOn s r fuel) :=
  runOn_of_steps (P := Reaches s h₀) (fun hadv hr => hr.tail (.run r hadv)) hr fuel

/-- A turn of a worker is made of moves. -/
theorem Reaches.turn {h₀ : Host} (hr : Reaches s h₀ h) (worker : Worker) :
    Reaches s h₀ (h.turn s worker) := by
  cases worker with
  | run r => exact hr.runOn r _
  | write number => exact hr.tail (.write number)
  | waiter number => exact hr.tail (.look number)

end Host

end ChangeCapture
