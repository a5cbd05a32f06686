import ChangeCapture.Proofs.Offsets.Desk
import ChangeCapture.Proofs.Offsets.Reading

/-!
# Connectors with one store

Several connectors may keep their positions in one store. A key is the text of an array of the scope
and the partition, so a connector of one scope never writes where a reader of another looks,
whatever characters the scopes are made of. Within a scope each partition has an entry of its
own.

## Main definitions

* `SharedStore`: a store, and the desks around it.
* `SharedStore.follow`: what happens at the desks, in any interleaving.

## Main results

* `SharedStore.get?_move` — a desk leaves the entries of other scopes alone.
* `SharedStore.isolates` — scopes are isolated, and no two partitions collide.
-/

namespace ChangeCapture

/-! ### One desk -/

/-- Whether a desk has not been worked at, and its keys are built in. -/
structure Desk.IsNew (d : Desk) : Prop where
  keys : d.writer.format.HasBuiltInKeys
  writer : d.writer = { format := d.writer.format }
  writes : d.writes = []

/-- **A desk keeps to its scope**: its writer is in order, and its writes only have entries under
keys of its scope. -/
structure Desk.Scoped (d : Desk) : Prop where
  keys : d.writer.format.HasBuiltInKeys
  valid : d.writer.Valid
  writes : ∀ w ∈ d.writes, ∀ e ∈ w.entries, ∃ p, e.1 = d.writer.format.keyBytes p

namespace Desk

variable {d : Desk}

/-- A new desk keeps to its scope. -/
theorem IsNew.scoped (h : d.IsNew) : d.Scoped where
  keys := h.keys
  valid := by
    rw [h.writer]
    exact .new _
  writes w hw := by
    rw [h.writes] at hw
    cases hw

/-- **A move keeps a desk to its scope.** -/
theorem Scoped.move (h : d.Scoped) (m : DeskMove) : (d.move m).Scoped where
  keys := (format_move d m).symm ▸ h.keys
  valid := valid_move h.valid m
  writes w hw e he := by
    rw [format_move]
    obtain ⟨n, hn⟩ := List.mem_iff_getElem?.mp hw
    rcases (moved d m).written hn with ⟨w₀, hn₀, hes⟩ | ⟨-, id, hs⟩
    · exact h.writes w₀ (List.mem_of_getElem? hn₀) e (hes ▸ he)
    · obtain ⟨s, -, hes, -⟩ := OffsetWriter.submit_eq_submitted hs
      obtain ⟨x, -, hx⟩ := h.keys.exists_of_mem_entries hes he
      exact ⟨x.2.1, hx⟩

/-- **A move leaves the entries of other scopes alone.** -/
theorem Scoped.get?_move (h : d.Scoped) (m : DeskMove) {f : OffsetFormat}
    (hscope : d.writer.format.scope ≠ f.scope) (p : Partition) :
    Dictionary.get? (f.keyBytes p) (d.move m).store.store.entries =
      Dictionary.get? (f.keyBytes p) d.store.store.entries := by
  rcases (moved d m).entries with hes | ⟨i, w, -, hi, hes⟩
  · rw [hes]
  · rw [hes]
    refine Dictionary.get?_merge_of_forall_ne ?_ _
    intro e he heq
    obtain ⟨q, hq⟩ := h.writes w (List.mem_of_getElem? hi) e he
    exact hscope (OffsetFormat.keyBytes_inj.mp (hq.symm.trans heq)).1

end Desk

/-! ### Desks around a store -/

/-- A store, and the desks of the connectors that share it. -/
structure SharedStore where
  store : PlannedStore
  desks : List Desk

namespace SharedStore

variable {shared : SharedStore} {f : OffsetFormat}

/-- What happens at the desk of a number, with the shared store before it. -/
def move (shared : SharedStore) (x : Nat × DeskMove) : SharedStore :=
  match shared.desks[x.1]? with
  | none => shared
  | some d =>
    let d := { d with store := shared.store }.move x.2
    { store := d.store, desks := shared.desks.set x.1 d }

/-- What happens at the desks one after the other. -/
def follow (shared : SharedStore) (moves : List (Nat × DeskMove)) : SharedStore :=
  moves.foldl move shared

/-- The scope of the desk of a number. -/
def scope? (shared : SharedStore) (i : Nat) : Option String :=
  (shared.desks[i]?).map fun d => d.writer.format.scope

/-- Whether every desk keeps to its scope. -/
def Scoped (shared : SharedStore) : Prop :=
  ∀ d ∈ shared.desks, d.Scoped

/-- The store before a desk does not change the desk. -/
theorem Scoped.desk (h : shared.Scoped) {i : Nat} {d : Desk} (hi : shared.desks[i]? = some d) :
    Desk.Scoped { d with store := shared.store } := by
  obtain ⟨keys, valid, writes⟩ := h d (List.mem_of_getElem? hi)
  exact ⟨keys, valid, writes⟩

/-- **Every move keeps every desk to its scope.** -/
theorem Scoped.move (h : shared.Scoped) (x : Nat × DeskMove) : (shared.move x).Scoped := by
  rw [SharedStore.move]
  cases hi : shared.desks[x.1]? with
  | none => exact h
  | some d =>
    intro d' hd'
    rcases List.mem_or_eq_of_mem_set hd' with hd' | rfl
    · exact h d' hd'
    · exact (h.desk hi).move x.2

/-- No desk changes its scope. -/
theorem scope?_move (shared : SharedStore) (x : Nat × DeskMove) (i : Nat) :
    (shared.move x).scope? i = shared.scope? i := by
  rw [move]
  cases hi : shared.desks[x.1]? with
  | none => rfl
  | some d =>
    obtain ⟨hlt, -⟩ := List.getElem?_eq_some_iff.mp hi
    by_cases hx : x.1 = i
    · subst hx
      simp only [scope?, List.getElem?_set_self hlt, hi, Option.map_some, Desk.format_move]
    · simp only [scope?, List.getElem?_set_ne hx]

/-- **What happens at a desk leaves the entries of other scopes alone.** -/
theorem get?_move (h : shared.Scoped) {x : Nat × DeskMove}
    (hother : shared.scope? x.1 ≠ some f.scope) (p : Partition) :
    Dictionary.get? (f.keyBytes p) (shared.move x).store.store.entries =
      Dictionary.get? (f.keyBytes p) shared.store.store.entries := by
  rw [move]
  cases hi : shared.desks[x.1]? with
  | none => rfl
  | some d =>
    refine (h.desk hi).get?_move x.2 (fun hscope => hother ?_) p
    rw [scope?, hi]
    exact congrArg some hscope

/-- Every desk keeps to its scope, whatever happens. -/
theorem Scoped.follow (h : shared.Scoped) (moves : List (Nat × DeskMove)) :
    (shared.follow moves).Scoped := by
  induction moves generalizing shared with
  | nil => exact h
  | cons x moves ih => exact ih (h.move x)

/-- No desk ever changes its scope. -/
theorem scope?_follow (shared : SharedStore) (moves : List (Nat × DeskMove)) (i : Nat) :
    (shared.follow moves).scope? i = shared.scope? i := by
  induction moves generalizing shared with
  | nil => rfl
  | cons x moves ih => exact (ih (shared.move x)).trans (scope?_move shared x i)

/-- Whatever happens at desks of other scopes leaves the entries of a scope alone. -/
theorem get?_follow (h : shared.Scoped) {moves : List (Nat × DeskMove)}
    (hothers : ∀ x ∈ moves, shared.scope? x.1 ≠ some f.scope) (p : Partition) :
    Dictionary.get? (f.keyBytes p) (shared.follow moves).store.store.entries =
      Dictionary.get? (f.keyBytes p) shared.store.store.entries := by
  induction moves generalizing shared with
  | nil => rfl
  | cons x moves ih =>
    have hfirst := get?_move h (hothers x List.mem_cons_self) p
    have hrest : ∀ y ∈ moves, (shared.move x).scope? y.1 ≠ some f.scope := fun y hy => by
      rw [scope?_move]
      exact hothers y (List.mem_cons_of_mem x hy)
    exact (ih (h.move x) hrest).trans hfirst

/-- **Connectors that share a store are isolated, and no two partitions collide.** A key tells scope
and partition, and a text tells its partition, if its numbers are whole. So nothing that happens at
desks of other scopes changes what a reader finds, for any partitions. And every snapshot has as
many entries as positions, provided that its offsets can be written, which built-in converters
always do. -/
theorem isolates (hf : f.HasBuiltInKeys) (hnew : ∀ d ∈ shared.desks, d.IsNew) :
    (∀ (g : OffsetFormat), g.HasBuiltInKeys → ∀ p q, IsWhole p → IsWhole q →
      (f.storeKey p = g.storeKey q ↔ f.scope = g.scope ∧ p = q)) ∧
    (∀ p q, IsWhole p → IsWhole q → (partitionKey p = partitionKey q ↔ p = q)) ∧
    (∀ before after, (∀ x ∈ after, shared.scope? x.1 ≠ some f.scope) →
      ∀ ps, ∃ found,
        f.read (shared.follow before).store.store.entries ps = .ok found ∧
        f.read (shared.follow (before ++ after)).store.store.entries ps = .ok found) ∧
    ∀ moves, ∀ d ∈ (shared.follow moves).desks, ∀ positions,
      d.writer.snapshot = some positions →
      (∀ flushId es, d.writer.submit.1 = .submitted flushId es → es.length = positions.length) ∧
      (d.writer.format.IsBuiltIn → ∃ flushId es, d.writer.submit.1 = .submitted flushId es) := by
  have hscoped : shared.Scoped := fun d hd => (hnew d hd).scoped
  refine ⟨?_, fun p q => partitionKey_inj, ?_, ?_⟩
  · intro g hg p q hp hq
    rw [hf.storeKey_eq, hg.storeKey_eq, Except.ok.injEq, OffsetFormat.keyBytes_inj,
      partitionKey_inj hp hq]
  · intro before after hothers ps
    have hafter : ∀ x ∈ after, (shared.follow before).scope? x.1 ≠ some f.scope := by
      intro x hx
      rw [scope?_follow]
      exact hothers x hx
    have hread : f.read (shared.follow (before ++ after)).store.store.entries ps =
        f.read (shared.follow before).store.store.entries ps := by
      refine hf.read_congr ?_
      intro p _
      rw [follow, List.foldl_append]
      exact get?_follow (hscoped.follow before) hafter p
    rw [hread, OffsetFormat.read, hf.storeKeys_eq]
    exact ⟨_, rfl, rfl⟩
  · intro moves d hd positions hs
    obtain ⟨hkeys, hvalid, -⟩ := hscoped.follow moves d hd
    obtain ⟨hpositions, hne⟩ := hvalid.snapshot positions hs
    constructor
    · intro flushId es hsub
      obtain ⟨s, hs', hes, -⟩ := OffsetWriter.submit_eq_submitted hsub
      obtain rfl : positions = s := Option.some.inj (hs.symm.trans hs')
      exact hkeys.length_entries hpositions hes
    · intro hb
      rcases OffsetWriter.submit_cases hvalid with
        ⟨hnone, -⟩ | ⟨s, e, -, he, -⟩ | ⟨s, es, -, -, hsub⟩
      · rw [hs] at hnone
        cases hnone
      · rw [OffsetFormat.entries_eq hb] at he
        cases he
      · exact ⟨_, es, by rw [hsub]⟩

/-- A scope that is made to look like another's key with its partition does not reach it. -/
theorem isolates_quoted_scope :
    let f : OffsetFormat :=
      { scope := "orders", keys := ConverterKind.json.converter
        values := ConverterKind.json.converter }
    let g : OffsetFormat :=
      { scope := "orders\",\x7b\"table\":7\x7d]", keys := ConverterKind.string.converter
        values := ConverterKind.string.converter }
    let table : Partition := [("table", .number (.integer 7))]
    let shared : SharedStore :=
      { store := {}, desks := [{ store := {}, writer := { format := f } },
          { store := {}, writer := { format := g } }] }
    let before : List (Nat × DeskMove) :=
      [(0, .call (.record table [("at", .number (.integer 1))])), (0, .call .beginFlush),
        (0, .call .submit), (0, .turn 0)]
    let after : List (Nat × DeskMove) :=
      [(1, .call (.record table [("at", .number (.integer 2))])), (1, .call .beginFlush),
        (1, .call .submit), (1, .turn 0)]
    f.read (shared.follow (before ++ after)).store.store.entries [table] =
        .ok { offsets := [(table, [("at", .number (.integer 1))])] } ∧
      f.storeKey table ≠ g.storeKey table := by
  intro f g table shared before after
  have hf : f.HasBuiltInKeys := ⟨.json, rfl⟩
  have hg : g.HasBuiltInKeys := ⟨.string, rfl⟩
  have hnew : ∀ d ∈ shared.desks, d.IsNew := by
    rintro d hd
    rcases List.mem_cons.mp hd with rfl | hd
    · exact ⟨hf, rfl, rfl⟩
    · obtain rfl := List.mem_singleton.mp hd
      exact ⟨hg, rfl, rfl⟩
  have hwhole : IsWhole table := ⟨trivial, rfl, trivial⟩
  obtain ⟨hkeys, -, hreads, -⟩ := isolates hf hnew
  have hothers : ∀ x ∈ after, shared.scope? x.1 ≠ some f.scope := by
    decide +kernel
  obtain ⟨found, hbefore, hafter⟩ := hreads before after hothers [table]
  have hfirst : f.read (shared.follow before).store.store.entries [table] =
      .ok { offsets := [(table, [("at", .number (.integer 1))])] } := by
    decide +kernel
  refine ⟨hafter.trans (hbefore.symm.trans hfirst), fun heq => ?_⟩
  have hscope : f.scope ≠ g.scope := by decide +kernel
  exact hscope ((hkeys g hg table table hwhole hwhole).mp heq).1

end SharedStore

end ChangeCapture
