import ChangeCapture.Proofs.Run.Steps

/-!
# What the other moves do

A turn of a background write adds events of the run that submitted it, and may set the entries of
the write in the store; it changes no run. All moves but these turns and the steps of runs add
nothing to the history and leave writes and store alone.

## Main definitions

* `Host.Rests`, `Host.WriteTurns`.

## Main results

* `Host.Move.elim` — a move is one of three kinds.
* `Host.Reaches.waitUntil` — a schedule only reaches what moves reach.
-/

namespace ChangeCapture

/-! ### Turns of writes -/

/-- Whether an event tells of a background write of a number. -/
def Event.IsOfWrite (n : Nat) (entries : Entries) (e : Event) : Prop :=
  e = .setInStore n entries ∨ (∃ error, e = .answered n error) ∨ e = .notice .writeFailed

/-- Events of writes belong to the work, take hold of nothing, and create nothing. -/
theorem Event.IsOfWrite.idle {n : Nat} {entries : Entries} {es : List Event}
    (h : ∀ e ∈ es, e.IsOfWrite n entries) :
    es.all Event.isWork = true ∧ heldBy es = [] ∧ creations es = 0 := by
  refine ⟨List.all_eq_true.mpr fun e he => ?_, List.filterMap_eq_nil_iff.mpr fun e he => ?_,
    List.length_eq_zero_iff.mpr (List.filter_eq_nil_iff.mpr fun e he => ?_)⟩
  · obtain rfl | ⟨_, rfl⟩ | rfl := h e he <;> rfl
  · obtain rfl | ⟨_, rfl⟩ | rfl := h e he <;> rfl
  · obtain rfl | ⟨_, rfl⟩ | rfl := h e he <;> exact Bool.false_ne_true

namespace Host

variable {s : Setup} {h h' : Host}

/-- **What a turn of a write does to a host.** -/
structure WriteTurns (n : Nat) (write : Write) (status : WriteStatus) (es : List Event)
    (h h' : Host) :
    Prop where
  found : h.writes[n]? = some write
  live : write.isLive = true
  adds : h.Adds write.run es h'
  events : ∀ e ∈ es, e.IsOfWrite n write.entries
  answered : status = .finished none → .answered n none ∈ es
  writes : h'.writes = h.writes.set n { write with status }
  store : Write.TurnsStore write.entries status h.store.store h'.store.store
  lifecycle : h'.lifecycle = h.lifecycle

/-- The events of a write's turn, with their notices. -/
theorem isOfWrite_writeEvents {n : Nat} {entries : Entries} {es : List Event}
    (hes : ∀ e ∈ es, e = .setInStore n entries ∨ ∃ error, e = .answered n error) :
    ∀ e ∈ writeEvents es, e.IsOfWrite n entries := by
  intro e he
  obtain ⟨e', he', he⟩ := List.mem_flatMap.mp he
  obtain rfl | ⟨error, rfl⟩ := hes e' he'
  · exact .inl (List.mem_singleton.mp he)
  · cases error with
    | none => exact .inr (.inl ⟨_, List.mem_singleton.mp he⟩)
    | some error =>
      rcases List.mem_cons.mp he with rfl | he
      · exact .inr (.inl ⟨_, rfl⟩)
      · exact .inr (.inr (List.mem_singleton.mp he))

/-- **A turn of a write** changes nothing, or goes as it may. -/
theorem turnWrite_cases (n : Nat) (h : Host) :
    h.turnWrite n = h ∨ ∃ write status es, h.WriteTurns n write status es (h.turnWrite n) := by
  rw [turnWrite]
  cases hn : h.writes[n]? with
  | none => exact .inl rfl
  | some write =>
    dsimp only
    cases hlive : write.isLive with
    | false =>
      refine .inl ?_
      rw [Write.turn_of_not_isLive hlive]
      obtain ⟨hlt, rfl⟩ := List.getElem?_eq_some_iff.mp hn
      dsimp only
      rw [List.set_getElem_self]
      rfl
    | true =>
      have hturned : write.Turned n h.store (write.turn n h.now h.store) := Write.turned_turn hlive
      obtain ⟨⟨status, hw, hstore⟩, hes⟩ := hturned
      refine .inr ⟨write, status, writeEvents (write.turn n h.now h.store).events, hn, hlive, ?_,
        isOfWrite_writeEvents hes, fun hok => ?_, ?_, ?_, ?_⟩
      · have hturn : h.Adds write.run []
            { h with writes := h.writes.set n (write.turn n h.now h.store).write
                     store := (write.turn n h.now h.store).store } := ⟨rfl, rfl, rfl⟩
        exact hturn.emitAll _
      · have hend : (write.turn n h.now h.store).write.status = .finished none := by rw [hw, hok]
        exact List.mem_flatMap.mpr ⟨_, Write.answered_of_turn hlive hend, List.mem_cons_self⟩
      · rw [emitAll_eq, hw]
      · rw [emitAll_eq]
        exact hstore
      · rw [emitAll_eq]

/-! ### Other moves -/

/-- What happens outside of runs and writes: at most a new run is asked for. -/
structure Rests (h h' : Host) : Prop where
  history : h'.history = h.history
  writes : h'.writes = h.writes
  store : h'.store = h.store
  taken : h'.lifecycle.isTaken = h.lifecycle.isTaken
  status : ∀ r, h'.status? r = h.status? r ∨ h.status? r = none ∧ h'.status? r = some .requested

/-- Asking a run to stop or to give up leaves it its place. -/
theorem isTaken_ask (c : Control) (h : Host) :
    (h.ask c).2.lifecycle.isTaken = h.lifecycle.isTaken :=
  isTaken_control 0 c

/-- **A move is one of three kinds**: a turn of a write, a step of a run, or neither. -/
theorem Move.elim {P : Prop} (hm : Move s h h') (rests : Rests h h' → P)
    (write : ∀ n write status es, h.WriteTurns n write status es h' → P)
    (run : ∀ r st es st' h₁, h.advance s r = some h' → h.status? r = some st →
      (∀ outcome, st ≠ .ended outcome) → h.Act s r st es st' h₁ →
      h' = h₁.setStatus r st' → P) : P := by
  have same : Rests h h := ⟨rfl, rfl, rfl, rfl, fun _ => .inl rfl⟩
  cases hm with
  | request =>
    refine rests ⟨rfl, rfl, rfl, rfl, fun r => ?_⟩
    rw [status?_request]
    split
    · rename_i hr
      refine .inr ⟨?_, rfl⟩
      rw [status?, hr, List.getElem?_eq_none (Nat.le_refl _)]
      rfl
    · exact .inl rfl
  | provide | startWaiter | look | pass => exact rests ⟨rfl, rfl, rfl, rfl, fun _ => .inl rfl⟩
  | ask c => exact rests ⟨rfl, rfl, rfl, isTaken_ask c h, fun _ => .inl rfl⟩
  | abort r => exact rests ⟨rfl, rfl, rfl, rfl, fun r' => .inl (status?_abort r r' h)⟩
  | write n =>
    obtain heq | ⟨w, status, es, hturn⟩ := turnWrite_cases n h
    · exact rests (by rw [heq]; exact same)
    · exact write n w status es hturn
  | run r hadv =>
    obtain ⟨st, es, st', h₁, hst, hlive, hact, heq⟩ := advance_acts hadv
    exact run r st es st' h₁ hadv hst hlive hact heq

/-! ### Schedules -/

/-- A step takes no time. -/
theorem now_advance {r : Nat} (hadv : h.advance s r = some h') : h'.now = h.now := by
  obtain ⟨st, es, st', h₁, -, -, hact, rfl⟩ := advance_acts hadv
  exact hact.adds.now

/-- The clock stands still while a run goes on. -/
theorem now_runOn (s : Setup) (r fuel : Nat) (h : Host) : (h.runOn s r fuel).now = h.now :=
  runOn_of_steps (P := fun h' => h'.now = h.now) (fun hadv hold => (now_advance hadv).trans hold)
    rfl fuel

/-- The clock stands still during a turn. -/
theorem now_turn (s : Setup) (worker : Worker) (h : Host) : (h.turn s worker).now = h.now := by
  cases worker with
  | run r => exact now_runOn s r _ h
  | write n =>
    change (h.turnWrite n).now = h.now
    obtain heq | ⟨w, status, es, hturn⟩ := turnWrite_cases n h
    · rw [heq]
    · exact hturn.adds.now
  | waiter n => rfl

/-- **A schedule only reaches what moves reach**: while a host waits for something, moves are made
and nothing else happens. -/
theorem Reaches.waitUntil {h₀ : Host} {t : Timeline Host Worker} (hr : Reaches s h₀ t.state)
    (done : Host → Bool) (deadline : Nat) :
    Reaches s h₀ (Timeline.waitUntil (machine s) done deadline t).2.state :=
  Timeline.waitUntil_induction (P := Reaches s h₀) (fun worker h => now_turn s worker h)
    (fun _ _ => rfl)
    (fun worker _ hr => Reaches.turn hr worker)
      (fun _ _ hle hr => hr.tail (.pass hle)) done deadline hr

end Host

end ChangeCapture
