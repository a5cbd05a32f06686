import ChangeCapture.Proofs.Run.Cleanup
import ChangeCapture.Proofs.Run.Flow

/-!
# Courses

A course is a sequence of moves together with what the host was asked on the way: each request to
stop or to give up, and the host that was asked. What runs do, and what their consumers ask for, is
in the history.

To a run that is active a move is one of three things: a step of its own, a request, or nothing that
concerns it. So what is to be known of a run is shown from where it was accepted, step by step.

## Main definitions

* `Asked`, `Course`: a request, and the moves of a host with the requests among them.
* `Host.IsUnfinished`: whether a run was accepted and has not ended.

## Main results

* `Host.Reaches.course` — whatever a host reaches, it reaches on a course.
* `Course.life` — what is true of a run from where it was accepted stays true of it.
-/

namespace ChangeCapture

/-- A request to a host, and the host that was asked. -/
structure Asked where
  control : Control
  host : Host

/-- Whether a request was granted. -/
def Asked.isGranted (q : Asked) : Bool :=
  (q.host.ask q.control).1

/-- A request is granted by the lifecycle of the host that was asked. -/
theorem Asked.isGranted_eq (q : Asked) : q.isGranted = q.host.lifecycle.grants q.control := by
  rw [isGranted, Host.ask_eq]

/-- **The moves of a host, and what it was asked**, the last first. A move that is no request is a
step of a run, or leaves the lifecycle as it is. -/
inductive Course (s : Setup) (h₀ : Host) : List Asked → Host → Prop where
  | start : Course s h₀ [] h₀
  | ask {asked : List Asked} {h : Host} (hc : Course s h₀ asked h) (c : Control) :
      Course s h₀ (⟨c, h⟩ :: asked) (h.ask c).2
  | move {asked : List Asked} {h h' : Host} (hc : Course s h₀ asked h) (hm : Host.Move s h h')
      (hl : h'.lifecycle = h.lifecycle ∨ ∃ r, h.advance s r = some h') : Course s h₀ asked h'

namespace Host

/-! ### Runs that are not over -/

/-- Whether the run of a number is active. -/
def isActive (r : Nat) (h : Host) : Bool :=
  match h.status? r with
  | some (.active _) => true
  | _ => false

/-- Whether a run was accepted and has not ended. -/
def IsUnfinished (h : Host) (r : Nat) : Prop :=
  .accepted ∈ eventsOf r h.history ∧ ∀ outcome, h.status? r ≠ some (.ended outcome)

variable {s : Setup} {r r' : Nat} {h h' h₁ : Host} {st st' : RunStatus} {es : List Event}

/-- A run is active where it stands at a stage. -/
theorem isActive_iff : h.isActive r = true ↔ ∃ a, h.status? r = some (.active a) := by
  rw [isActive]
  split
  · rename_i a ha
    exact ⟨fun _ => ⟨a, ha⟩, fun _ => rfl⟩
  · rename_i hno
    exact ⟨nofun, fun ⟨a, ha⟩ => absurd ha (hno a)⟩

/-! ### Moves that concern no run -/

/-- What happens outside of runs and beside requests: at most a new run is asked for, and quiet
events are added. -/
structure Idles (h h' : Host) : Prop where
  lifecycle : h'.lifecycle = h.lifecycle
  events : ∀ r, ∃ es, es.all Event.isQuiet = true ∧
    eventsOf r h'.history = es ++ eventsOf r h.history
  status : ∀ r, h'.status? r = h.status? r ∨ h.status? r = none ∧ h'.status? r = some .requested

/-- A move that is neither a step of a run nor a request concerns no run. -/
theorem Rests.idles (hr : h.Rests h') (hl : h'.lifecycle = h.lifecycle) : h.Idles h' where
  lifecycle := hl
  events r := ⟨[], rfl, by rw [hr.history]; rfl⟩
  status := hr.status

/-- A turn of a write concerns no run. -/
theorem WriteTurns.idles {n : Nat} {write : Write} {status : WriteStatus}
    (hw : h.WriteTurns n write status es h') : h.Idles h' where
  lifecycle := hw.lifecycle
  events r := by
    by_cases hr : write.run = r
    · subst hr
      refine ⟨es.reverse, ?_, hw.adds.eventsOf_self⟩
      rw [List.all_reverse, List.all_eq_true]
      intro e he
      obtain rfl | ⟨_, rfl⟩ | rfl := hw.events e he <;> rfl
    · exact ⟨[], rfl, hw.adds.eventsOf_of_ne hr⟩
  status r := .inl (hw.adds.status? r)

/-- How far a run is stays after a move that concerns no run. -/
theorem Idles.status?_eq (hi : h.Idles h') (hst : h.status? r = some st) :
    h'.status? r = some st := by
  obtain heq | ⟨hnone, -⟩ := hi.status r
  · rw [heq, hst]
  · rw [hnone] at hst
    cases hst

/-- A run was as far before a move that concerns no run, unless it is asked for in it. -/
theorem Idles.status?_before (hi : h.Idles h') (hst : h'.status? r = some st)
    (hreq : st ≠ .requested) : h.status? r = some st := by
  obtain heq | ⟨-, heq⟩ := hi.status r
  · rw [← heq, hst]
  · rw [hst, Option.some.injEq] at heq
    exact absurd heq hreq

end Host

namespace Course

open Host

variable {s : Setup} {h₀ h : Host} {asked : List Asked} {r : Nat}

/-- A course goes where moves lead. -/
theorem reaches (hc : Course s h₀ asked h) : Reaches s h₀ h := by
  induction hc with
  | start => exact .refl
  | ask _ c ih => exact ih.tail (.ask c)
  | move _ hm _ ih => exact ih.tail hm

/-- **Courses step by step**: a request, a move that concerns no run, or a step of a run. -/
theorem induct {P : List Asked → Host → Prop} (start : P [] h₀)
    (ask : ∀ {asked h} c, Course s h₀ asked h → P asked h → P (⟨c, h⟩ :: asked) (h.ask c).2)
    (idle : ∀ {asked h h'}, Course s h₀ asked h → h.Idles h' → P asked h → P asked h')
    (run : ∀ {asked h r st es st' h₁}, Course s h₀ asked h → h.status? r = some st →
      h.Adds r es h₁ → Flow s h st es st' h₁.lifecycle → P asked h → P asked (h₁.setStatus r st'))
    (hc : Course s h₀ asked h) : P asked h := by
  induction hc with
  | start => exact start
  | ask hc c ih => exact ask c hc ih
  | move hc hm hl ih =>
    have step : ∀ {r h'}, advance s r _ = some h' → P _ h' := fun hadv => by
      obtain ⟨st, es, st', h₁, hst, hadds, hflow, rfl⟩ := advance_flows hadv
      exact run hc hst hadds hflow ih
    rcases hl with hl | ⟨r, hadv⟩
    · exact hm.elim (fun hr => idle hc (hr.idles hl) ih) (fun _ _ _ _ hw => idle hc hw.idles ih)
        fun _ _ _ _ _ hadv _ _ _ _ => step hadv
    · exact step hadv

end Course

/-- **Whatever a host reaches, it reaches on a course.** -/
theorem Host.Reaches.course {s : Setup} {h₀ h : Host} (hr : Reaches s h₀ h) :
    ∃ asked, Course s h₀ asked h := by
  induction hr with
  | refl => exact ⟨[], .start⟩
  | tail _ hm ih =>
    obtain ⟨asked, hc⟩ := ih
    cases hm with
    | ask c => exact ⟨_, hc.ask c⟩
    | run r hadv => exact ⟨asked, hc.move (.run r hadv) (.inr ⟨r, hadv⟩)⟩
    | write n =>
      refine ⟨asked, hc.move (.write n) (.inl ?_)⟩
      obtain heq | ⟨w, status, es, hw⟩ := turnWrite_cases n _
      · rw [heq]
      · exact hw.lifecycle
    | request => exact ⟨asked, hc.move .request (.inl rfl)⟩
    | provide result => exact ⟨asked, hc.move (.provide result) (.inl rfl)⟩
    | abort r => exact ⟨asked, hc.move (.abort r) (.inl rfl)⟩
    | startWaiter name wish => exact ⟨asked, hc.move (.startWaiter name wish) (.inl rfl)⟩
    | look n => exact ⟨asked, hc.move (.look n) (.inl rfl)⟩
    | pass hnow => exact ⟨asked, hc.move (.pass hnow) (.inl rfl)⟩

namespace Host

variable {s : Setup} {h : Host} {st st' : RunStatus} {es : List Event} {l' : Lifecycle}

/-! ### Flow, run by run -/

/-- A step never leads back to where a run is asked for. -/
theorem Flow.ne_requested (hf : Flow s h st es st' l') : st' ≠ .requested := by
  cases hf <;> nofun

/-- A run that has ended takes no step. -/
theorem Flow.ne_ended (hf : Flow s h st es st' l') (outcome : RunEnd) : st ≠ .ended outcome := by
  cases hf <;> nofun

/-- A run that is not active, and takes a step beside an active one, leaves the lifecycle as it
is. -/
theorem Flow.lifecycle_beside (hf : Flow s h .requested es st' l')
    (ht : h.lifecycle.isTaken = true) : l' = h.lifecycle := by
  cases hf with
  | passes | drops => rfl
  | enters hl | turnsBack hl =>
    rw [(isTaken_start? hl).1] at ht
    cases ht

end Host

namespace Course

open Host

variable {s : Setup} {h₀ h : Host} {asked : List Asked} {r : Nat} {st : RunStatus}

/-- Nothing has happened to a run that was not accepted. -/
theorem eventsOf_eq_nil (hf : h₀.Fresh) (hc : Course s h₀ asked h)
    (hst : h.status? r = none ∨ h.status? r = some .requested) : eventsOf r h.history = [] := by
  have hall := Reaches.allTraced hf hc.reaches
  rcases hst with hst | hst
  · exact hall.unasked r hst
  · exact List.reverse_eq_nil_iff.mp (hall.traced r _ hst)

/-- Nothing was asked of a run that was not accepted. -/
theorem unheard (hc : Course s h₀ asked h)
    (hst : h.status? r = none ∨ h.status? r = some .requested) :
    ∀ q ∈ asked, q.host.isActive r = false := by
  revert hst
  refine induct (P := fun asked h => h.status? r = none ∨ h.status? r = some .requested →
    ∀ q ∈ asked, q.host.isActive r = false) nofun ?_ ?_ ?_ hc
  · intro asked h c _ ih hst q hq
    change h.status? r = none ∨ h.status? r = some .requested at hst
    rcases List.mem_cons.mp hq with rfl | hq
    · rw [Bool.eq_false_iff, ne_eq, isActive_iff]
      rintro ⟨a, ha⟩
      dsimp only at ha
      rw [ha] at hst
      simp at hst
    · exact ih hst q hq
  · intro asked h h' _ hi ih hst
    obtain heq | ⟨hnone, -⟩ := hi.status r
    · exact ih (heq ▸ hst)
    · exact ih (.inl hnone)
  · intro asked h r' st es st' h₁ _ hst₁ hadds hflow ih hst
    rw [hadds.status?_setStatus hst₁] at hst
    split at hst
    · rcases hst with hst | hst
      · cases hst
      · exact absurd (Option.some.inj hst) hflow.ne_requested
    · exact ih hst

/-- **What is true of a run from where it was accepted stays true of it**: it is kept by quiet
events, by requests while the run is active, and by its own steps; and once the run has ended, by
everything that does not concern it any more. -/
theorem life {P : List Asked → RunStatus → List Event → Lifecycle → Prop} (hf : h₀.Fresh)
    (begins : ∀ {asked h es st'} {l' : Lifecycle}, Course s h₀ asked h →
      (∀ q ∈ asked, q.host.isActive r = false) → Flow s h .requested es st' l' →
      P asked st' es.reverse l')
    (idles : ∀ {asked st es l es'}, es'.all Event.isQuiet = true → P asked st es l →
      P asked st (es' ++ es) l)
    (asks : ∀ {asked h a} c, h.status? r = some (.active a) →
      P asked (.active a) (eventsOf r h.history) h.lifecycle →
      P (⟨c, h⟩ :: asked) (.active a) (eventsOf r h.history) (h.lifecycle.heed c))
    (flows : ∀ {asked h a es st'} {l' : Lifecycle}, Course s h₀ asked h →
      h.status? r = some (.active a) → Flow s h (.active a) es st' l' →
      P asked (.active a) (eventsOf r h.history) h.lifecycle →
      P asked st' (es.reverse ++ eventsOf r h.history) l')
    (ended : ∀ {asked outcome es l l'} newer, (∀ q ∈ newer, q.host.isActive r = false) →
      P asked (.ended outcome) es l → P (newer ++ asked) (.ended outcome) es l')
    (hc : Course s h₀ asked h) (hst : h.status? r = some st) (hreq : st ≠ .requested) :
    P asked st (eventsOf r h.history) h.lifecycle := by
  revert st
  refine induct (P := fun asked h => ∀ {st}, h.status? r = some st → st ≠ .requested →
    P asked st (eventsOf r h.history) h.lifecycle) ?_ ?_ ?_ ?_ hc
  · intro st hst
    rw [hf.status?] at hst
    cases hst
  · intro asked h c hc ih st hst hreq
    rw [ask_eq] at hst ⊢
    have hst : h.status? r = some st := hst
    cases st with
    | requested => exact absurd rfl hreq
    | active a => exact asks c hst (ih hst hreq)
    | ended outcome =>
      refine ended [⟨c, h⟩] ?_ (ih hst hreq)
      intro q hq
      obtain rfl := List.mem_singleton.mp hq
      rw [isActive, hst]
  · intro asked h h' hc hi ih st hst hreq
    obtain ⟨es, hes, heq⟩ := hi.events r
    rw [heq, hi.lifecycle]
    exact idles hes (ih (hi.status?_before hst hreq) hreq)
  · intro asked h r' st₁ es st₁' h₁ hc hst₁ hadds hflow ih st hst hreq
    change P asked st (eventsOf r h₁.history) h₁.lifecycle
    rw [hadds.status?_setStatus hst₁] at hst
    split at hst
    · rename_i hr
      subst hr
      obtain rfl := Option.some.inj hst
      rw [hadds.eventsOf_self]
      cases st₁ with
      | requested =>
        rw [hc.eventsOf_eq_nil hf (.inr hst₁), List.append_nil]
        exact begins hc (hc.unheard (.inr hst₁)) hflow
      | active a => exact flows hc hst₁ hflow (ih hst₁ nofun)
      | ended outcome => exact absurd rfl (hflow.ne_ended outcome)
    · rename_i hr
      rw [hadds.eventsOf_of_ne hr]
      have hold := ih hst hreq
      cases st with
      | requested => exact absurd rfl hreq
      | ended outcome => exact ended [] nofun hold
      | active a =>
        have ho := Reaches.orderly hf hc.reaches
        cases st₁ with
        | requested => rwa [hflow.lifecycle_beside (ho.taken r a hst)]
        | active b => exact absurd (ho.alone r' r b a hst₁ hst) hr
        | ended outcome => exact absurd rfl (hflow.ne_ended outcome)

end Course

end ChangeCapture
