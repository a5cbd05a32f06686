import ChangeCapture.Proofs.Run.Ledger

/-!
# The positions of all runs

The runs of a host deliver one after the other. What an active run owes was delivered last of all,
so a flush carries for each of its partitions the newest position that any run has delivered.

## Main definitions

* `positionsFor`: the positions delivered for a partition.
* `Confirmed`: a flush that was confirmed, and what had happened before it was submitted.

## Main results

* `Host.Reaches.recent` — what a run owes was delivered last of all.
* `Host.Reaches.carries_newest` — a flush carries the newest positions.
-/

namespace ChangeCapture

/-! ### Positions in a history -/

/-- The position that an event delivers. -/
def HistoryEntry.position? (x : HistoryEntry) : Option (Partition × Offset) :=
  match x.event with
  | .delivered batch => batchPosition? batch
  | _ => none

/-- The positions of all batches that the runs of a host have delivered, the newest first. -/
def positionsIn (history : List HistoryEntry) : List (Partition × Offset) :=
  history.filterMap HistoryEntry.position?

/-- **The positions delivered for a partition**, the newest first. -/
def positionsFor (p : Partition) (history : List HistoryEntry) : List (Partition × Offset) :=
  (positionsIn history).filter fun x => partitionKey x.1 = partitionKey p

/-- The positions in two parts of a history. -/
theorem positionsIn_append (newer older : List HistoryEntry) :
    positionsIn (newer ++ older) = positionsIn newer ++ positionsIn older :=
  List.filterMap_append

/-- The positions for a partition in two parts of a history. -/
theorem positionsFor_append (p : Partition) (newer older : List HistoryEntry) :
    positionsFor p (newer ++ older) = positionsFor p newer ++ positionsFor p older := by
  rw [positionsFor, positionsIn_append, List.filter_append]
  rfl

/-- What was delivered earlier stays delivered. -/
theorem positionsFor_suffix {p : Partition} {older history : List HistoryEntry}
    (h : older <:+ history) :
    positionsFor p older <:+ positionsFor p history := by
  obtain ⟨newer, rfl⟩ := h
  exact ⟨positionsFor p newer, (positionsFor_append p newer older).symm⟩

/-- Events that deliver nothing have no positions. -/
theorem positionsIn_owesNothing {r now : Nat} {es : List Event}
    (h : es.all Event.owesNothing = true) :
    positionsIn (es.map (HistoryEntry.mk r now)).reverse = [] := by
  refine List.filterMap_eq_nil_iff.mpr ?_
  intro x hx
  obtain ⟨e, he, rfl⟩ := List.mem_map.mp (List.mem_reverse.mp hx)
  have howes := List.all_eq_true.mp h e he
  cases e <;> first | rfl | cases howes

/-- A batch that is delivered for a partition is the newest for it. -/
theorem positionsFor_cons {x : HistoryEntry} {p q : Partition} {o : Offset}
    (hx : x.position? = some (q, o))
    (hq : partitionKey q = partitionKey p) (older : List HistoryEntry) :
    positionsFor p (x :: older) = (q, o) :: positionsFor p older := by
  simp [positionsFor, positionsIn, hx, hq]

/-- **The newest position for a partition** is that of a batch, after which none was delivered for
it. -/
theorem exists_of_positionsFor_eq_cons {p q : Partition} {o : Offset}
    {rest : List (Partition × Offset)}
    {history : List HistoryEntry} (h : positionsFor p history = (q, o) :: rest) :
    ∃ newer x older, history = newer ++ x :: older ∧ x.position? = some (q, o) ∧
      partitionKey q = partitionKey p ∧ positionsFor p newer = [] := by
  induction history with
  | nil => cases h
  | cons y history ih =>
    have older : positionsFor p [y] = [] → ∃ newer x older, y :: history = newer ++ x :: older ∧
        x.position? = some (q, o) ∧ partitionKey q = partitionKey p ∧
          positionsFor p newer = [] := by
      intro hnone
      have hsplit := positionsFor_append p [y] history
      rw [List.singleton_append, h, hnone, List.nil_append] at hsplit
      obtain ⟨newer, x, older, rfl, hx, hq, hnewer⟩ := ih hsplit.symm
      refine ⟨y :: newer, x, older, rfl, hx, hq, ?_⟩
      rw [← List.singleton_append, positionsFor_append, hnone, hnewer]
      rfl
    cases hy : y.position? with
    | none => exact older (by simp [positionsFor, positionsIn, hy])
    | some z =>
      obtain ⟨q', o'⟩ := z
      by_cases hq : partitionKey q' = partitionKey p
      · rw [positionsFor_cons hy hq, List.cons.injEq, Prod.mk.injEq] at h
        obtain ⟨⟨rfl, rfl⟩, -⟩ := h
        exact ⟨[], y, history, rfl, hy, hq, rfl⟩
      · exact older (by simp [positionsFor, positionsIn, hy, hq])

/-- The newest position for a partition is the latest for its text. -/
theorem head?_positionsFor (p : Partition) (history : List HistoryEntry) :
    (positionsFor p history).head? = Positions.latest? (partitionKey p) (positionsIn history) := by
  rw [positionsFor, List.head?_filter, Positions.latest?]

/-! ### Confirmed flushes -/

/-- **A flush that was confirmed**: the run that submitted it, its number and its entries, and what
had happened before it was submitted. -/
def Confirmed (history : List HistoryEntry) (r n : Nat) (es : Entries)
    (before : List HistoryEntry) : Prop :=
  ∃ later t between t', history =
    later ++ ⟨r, t, .committed n⟩ :: (between ++ ⟨r, t', .submitted n es⟩ :: before)

namespace Confirmed

variable {history before : List HistoryEntry} {r n : Nat} {es : Entries}

/-- What had happened before a flush is the older part of the history. -/
theorem suffix (h : Confirmed history r n es before) : before <:+ history := by
  obtain ⟨later, t, between, t', rfl⟩ := h
  exact ⟨later ++ ⟨r, t, .committed n⟩ :: (between ++ [⟨r, t', .submitted n es⟩]), by simp⟩

/-- A flush that was confirmed had been submitted. -/
theorem submitted (h : Confirmed history r n es before) : .submitted n es ∈ eventsOf r history := by
  obtain ⟨later, t, between, t', rfl⟩ := h
  exact mem_eventsOf.mpr ⟨t', by simp⟩

/-- A flush was confirmed before the latest event, unless this confirms it. -/
theorem of_cons {x : HistoryEntry} (h : Confirmed (x :: history) r n es before) :
    Confirmed history r n es before ∨ x.run = r ∧ x.event = .committed n := by
  obtain ⟨later, t, between, t', heq⟩ := h
  cases later with
  | nil =>
    rw [List.nil_append, List.cons.injEq] at heq
    exact .inr ⟨heq.1 ▸ rfl, heq.1 ▸ rfl⟩
  | cons y later =>
    rw [List.cons_append, List.cons.injEq] at heq
    exact .inl ⟨later, t, between, t', heq.2⟩

/-- A flush was confirmed before some events that confirm nothing. -/
theorem of_append {newer : List HistoryEntry} (hno : ∀ x ∈ newer, ∀ m, x.event ≠ .committed m)
    (h : Confirmed (newer ++ history) r n es before) : Confirmed history r n es before := by
  induction newer with
  | nil => exact h
  | cons x newer ih =>
    rcases h.of_cons with h | ⟨-, hx⟩
    · exact ih (fun y hy => hno y (List.mem_cons_of_mem _ hy)) h
    · exact absurd hx (hno x List.mem_cons_self n)

end Confirmed

/-! ### What a run owes -/

/-- Whatever happens in a run, what it owes stays what was delivered last. -/
theorem deliveredSince_prefix {r now : Nat} (es : List Event) {older : List Event}
    {history : List HistoryEntry} (h : deliveredSince older <+: positionsIn history) :
    deliveredSince (es.reverse ++ older) <+:
      positionsIn ((es.map (HistoryEntry.mk r now)).reverse ++ history) := by
  rw [← List.map_reverse]
  induction es.reverse with
  | nil => exact h
  | cons e newer ih =>
    rw [List.map_cons, List.cons_append, List.cons_append]
    cases e with
    | delivered batch =>
      change (batchPosition? batch).toList ++ _ <+: positionsIn (⟨r, now, .delivered batch⟩ :: _)
      have hhead : ∀ older, positionsIn (⟨r, now, .delivered batch⟩ :: older) =
          (batchPosition? batch).toList ++ positionsIn older := fun older => by
        cases hb : batchPosition? batch with
        | none => exact List.filterMap_cons_none hb
        | some x => exact List.filterMap_cons_some hb
      rw [hhead]
      exact (List.prefix_append_right_inj _).mpr ih
    | committed n => exact List.nil_prefix
    | _ => exact ih

/-- Whether a run that submits a flush owes what was delivered last. -/
def SubmitsRecent (x : HistoryEntry) (earlier : List HistoryEntry) : Prop :=
  ∀ n entries, x.event = .submitted n entries →
    deliveredSince (eventsOf x.run earlier) <+: positionsIn earlier

namespace Host

variable {s : Setup} {r r' n : Nat} {h h' h₀ h₁ : Host} {st st' : RunStatus} {es : List Event}

/-- **What a run owes was delivered last of all**, and so it was whenever a flush was submitted. -/
structure Recent (h : Host) : Prop where
  owed : ∀ r a, h.status? r = some (.active a) →
    deliveredSince (eventsOf r h.history) <+: positionsIn h.history
  submitted : Throughout SubmitsRecent h.history

/-- A move that is no step leaves what is owed. -/
theorem Recent.rests (hc : h.Recent) (hr : h.Rests h') : h'.Recent where
  owed r a hst := by
    rw [hr.history]
    exact hc.owed r a (hr.active hst)
  submitted := hr.history ▸ hc.submitted

/-- Turns of writes deliver and confirm nothing. -/
theorem WriteTurns.owesNothing {write : Write} {status : WriteStatus}
    (hw : h.WriteTurns n write status es h') :
    es.all Event.owesNothing = true := by
  refine List.all_eq_true.mpr ?_
  intro e he
  obtain rfl | ⟨_, rfl⟩ | rfl := hw.events e he <;> rfl

/-- A turn of a write leaves what is owed. -/
theorem Recent.write {write : Write} {status : WriteStatus} (hc : h.Recent)
    (hw : h.WriteTurns n write status es h') : h'.Recent where
  owed r a hst := by
    rw [hw.status?] at hst
    have howed := hc.owed r a hst
    by_cases hr : write.run = r
    · subst hr
      rw [hw.adds.eventsOf_self, hw.adds.history]
      exact deliveredSince_prefix es howed
    · rw [hw.adds.eventsOf_of_ne hr, hw.adds.history, positionsIn_append,
        positionsIn_owesNothing hw.owesNothing]
      exact howed
  submitted := by
    refine hc.submitted.adds hw.adds ?_
    intro e he older m entries heq
    obtain rfl | ⟨_, rfl⟩ | rfl := hw.events e he <;> cases heq

/-- A run beside an active one does nothing to the books. -/
theorem Act.plain_of_beside (ho : h.Orderly) (hst : h.status? r = some st)
    (hlive : ∀ o, st ≠ .ended o)
    (hact : h.Act s r st es st' h₁) {a : Active} (hr' : h.status? r' = some (.active a))
    (hne : r ≠ r') :
    st = .requested ∧ (∀ a', st' ≠ .active a') ∧ es.all Event.isPlain = true ∧
      h₁.writes = h.writes := by
  have hno : ∀ a', st' ≠ .active a' := fun a' ha => hne (ho.alone_act hst hlive hact ha hr')
  cases st with
  | requested =>
    cases hact.books with
    | opens => exact absurd rfl (hno _)
    | ends hes _ _ hws => exact ⟨rfl, hno, hes, hws⟩
  | active b => exact absurd (ho.alone r r' b a hst hr') hne
  | ended outcome => exact absurd rfl (hlive outcome)

/-- A step of a run leaves what is owed the newest. -/
theorem Recent.act (hc : h.Recent) (ho : h.Orderly) (hat : h.AllTraced s)
    (hst : h.status? r = some st)
    (hlive : ∀ o, st ≠ .ended o) (hact : h.Act s r st es st' h₁) : (h₁.setStatus r st').Recent := by
  -- A run that has just begun owes nothing.
  have hnow : deliveredSince (eventsOf r h.history) <+: positionsIn h.history := by
    cases st with
    | requested =>
      have hnone : (eventsOf r h.history).reverse = [] := hat.traced r _ hst
      rw [List.reverse_eq_nil_iff.mp hnone]
      exact List.nil_prefix
    | active b => exact hc.owed r b hst
    | ended outcome => exact absurd rfl (hlive outcome)
  constructor
  · intro r' a hr'
    change deliveredSince (eventsOf r' h₁.history) <+: positionsIn h₁.history
    rw [hact.status? hst] at hr'
    split at hr'
    · rename_i hr
      subst hr
      rw [hact.adds.eventsOf_self, hact.adds.history]
      exact deliveredSince_prefix es hnow
    · rename_i hr
      obtain ⟨-, -, hes, -⟩ := hact.plain_of_beside ho hst hlive hr' hr
      rw [hact.adds.eventsOf_of_ne hr, hact.adds.history, positionsIn_append,
        positionsIn_owesNothing (owesNothing_plain hes)]
      exact hc.owed r' a hr'
  · change Throughout SubmitsRecent h₁.history
    refine hc.submitted.adds_in_order hact.adds ?_
    intro es₁ e es₂ _ m entries _
    rw [eventsOf_append, ← List.map_reverse, eventsOf_map_self, List.map_reverse]
    exact deliveredSince_prefix es₁ hnow

/-- What is owed for a partition has the entry of the newest position for it. -/
theorem get?_entriesOf_owed {f : OffsetFormat} {owed : List Event} {history : List HistoryEntry}
    (h : deliveredSince owed <+: positionsIn history) {p : Partition} {value : Bytes}
    (hget : Dictionary.get? (f.keyBytes p) (f.entriesOf (owedPositions owed)) = some value) :
    ∃ q o rest, positionsFor p history = (q, o) :: rest ∧ value = OffsetFormat.valueBytes o := by
  rw [owedPositions, OffsetFormat.get?_entriesOf_recordAll, Option.map_eq_some_iff] at hget
  obtain ⟨⟨q, o⟩, hlatest, rfl⟩ := hget
  have hhead : (positionsFor p history).head? = some (q, o) := by
    obtain ⟨rest, hrest⟩ := h
    rw [head?_positionsFor, Positions.latest?, ← hrest, List.find?_append]
    rw [Positions.latest?] at hlatest
    rw [hlatest]
    rfl
  obtain ⟨rest, hcons⟩ := List.head?_eq_some_iff.mp hhead
  exact ⟨q, o, rest, hcons, rfl⟩

end Host

end ChangeCapture
