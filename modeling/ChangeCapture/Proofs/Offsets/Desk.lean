import ChangeCapture.Proofs.Offsets.Entries
import ChangeCapture.Proofs.Offsets.Log
import ChangeCapture.Proofs.Offsets.Write
import ChangeCapture.Proofs.Storage.Store

/-!
# What happens at a desk

Whatever happens at a desk, its writer keeps its format, a write keeps its entries, and the store
only changes in the turn of a write, to the entries of that write over the old ones.

## Main definitions

* `Desk.Moved`: what one move may do to writes and store.

## Main results

* `Desk.moved` — every move is one of these.
* `Desk.Moved.entries` — the store changes by the entries of a write.
* `Desk.events_move` — what is handed to the store are the entries of a write.
-/

namespace ChangeCapture

namespace OffsetWriter

variable {w : OffsetWriter}

/-- Giving a snapshot up leaves the format. -/
theorem format_cancelFlush (w : OffsetWriter) : w.cancelFlush.format = w.format := by
  rw [cancelFlush]
  split <;> rfl

/-- **No call changes the format** of a writer. -/
theorem format_call (w : OffsetWriter) (c : WriterCall) : (w.call c).1.format = w.format := by
  cases c with
  | record p o => rfl
  | beginFlush =>
    cases hb : w.beginFlush with
    | error e => simp [call, hb]
    | ok w? =>
      cases w? with
      | none => simp [call, hb]
      | some w' =>
        obtain ⟨-, -, rfl⟩ := beginFlush_eq_ok_some hb
        simp [call, hb]
  | submit =>
    have hs : w.submit.2.format = w.format := by
      rw [submit]
      split
      · rfl
      · rfl
      · split
        · exact format_cancelFlush w
        · rfl
    rw [call]
    split <;> simp_all
  | complete flushId =>
    cases hc : w.complete? flushId with
    | none => simp [call, hc]
    | some w' =>
      obtain ⟨s, -, -, rfl⟩ := complete?_eq_some hc
      simp [call, hc]
  | cancelFlush => exact format_cancelFlush w

/-- Every call keeps a writer in order. -/
theorem Valid.call (h : w.Valid) (c : WriterCall) : (w.call c).1.Valid := by
  change (LoggedWriter.call ⟨w, []⟩ c).writer.Valid
  rcases LoggedWriter.call_cases (l := ⟨w, []⟩) h c with
    hc | ⟨p, o, -, hc⟩ | ⟨w', hb, hc⟩ | ⟨-, hc⟩ | ⟨id, w', s, hw, -, hc⟩
  · rwa [hc]
  · rw [hc]
    exact h.record p o
  · rw [hc]
    exact h.beginFlush hb
  · rw [hc]
    exact h.cancelFlush
  · rw [hc]
    exact h.complete? hw

/-- What is submitted are the entries of the snapshot, and the writer stays as it is. -/
theorem submit_eq_submitted {id : Nat} {es : Entries} (h : w.submit.1 = .submitted id es) :
    ∃ s, w.snapshot = some s ∧ entries w.format s = .ok es ∧ w.submit = (.submitted id es, w) := by
  cases hs : w.snapshot with
  | none => simp [submit, hs] at h
  | some s =>
    cases s with
    | nil => simp [submit, hs] at h
    | cons e rest =>
      cases he : entries w.format (e :: rest) with
      | error err => simp [submit, hs, he] at h
      | ok es' =>
        simp only [submit, hs, he, Submission.submitted.injEq] at h ⊢
        obtain ⟨rfl, rfl⟩ := h
        exact ⟨_, rfl, he, rfl⟩

end OffsetWriter

namespace Desk

variable {d d' : Desk} {m : DeskMove}

/-! ### The writer -/

/-- The writer of a desk keeps its format. -/
theorem format_move (d : Desk) (m : DeskMove) : (d.move m).writer.format = d.writer.format := by
  cases hm : m.call? with
  | none => rw [writer_move_of_call?_eq_none d hm]
  | some c =>
    cases m with
    | call c' => rw [writer_move_call, OffsetWriter.format_call]
    | cancelWrite i | turn i | pass now => cases hm

/-- The writer of a desk stays in order. -/
theorem valid_move (h : d.writer.Valid) (m : DeskMove) : (d.move m).writer.Valid := by
  cases hm : m.call? with
  | none => rwa [writer_move_of_call?_eq_none d hm]
  | some c =>
    cases m with
    | call c' => exact writer_move_call d c' ▸ h.call c'
    | cancelWrite i | turn i | pass now => cases hm

/-- What happens first and what happens then. -/
theorem follow_append (d : Desk) (before after : List DeskMove) :
    d.follow (before ++ after) = (d.follow before).follow after :=
  List.foldl_append

/-! ### Writes and store -/

/-- **What one move may do to writes and store**: nothing, submit a write, cancel one, or let one
take its turn. -/
inductive Moved (d : Desk) (m : DeskMove) (d' : Desk) : Prop
  | rests (writes : d'.writes = d.writes) (store : d'.store = d.store)
  | submits {id : Nat} {es : Entries} (call : m = .call .submit)
      (submit : d.writer.submit.1 = .submitted id es)
      (writes : d'.writes = d.writes ++ [{ run := 0, flushId := id, entries := es }])
      (store : d'.store = d.store)
  | cancels {i : Nat} (cancel : m = .cancelWrite i)
      (writes : d'.writes = d.writes.modify i Write.cancel) (store : d'.store = d.store)
  | turns {i : Nat} {w : Write} {status : WriteStatus} (turn : m = .turn i)
      (found : d.writes[i]? = some w) (writes : d'.writes = d.writes.set i { w with status })
      (store : Write.TurnsStore w.entries status d.store.store d'.store.store)
      (handed : (∃ call, w.status = .pending call) ∨ .setInStore i w.entries ∈ d'.events)

/-- **What a move does to writes and store.** -/
theorem moved (d : Desk) (m : DeskMove) : d.Moved m (d.move m) := by
  cases m with
  | call c =>
    cases c with
    | record p o => exact .rests rfl rfl
    | beginFlush =>
      rw [move, beginFlush]
      split <;> exact .rests rfl rfl
    | submit =>
      rw [move, flush]
      split
      · exact .rests rfl rfl
      · exact .rests rfl rfl
      · next id es w hs => exact .submits rfl (by rw [hs]) rfl rfl
    | complete flushId =>
      rw [move, complete]
      split <;> exact .rests rfl rfl
    | cancelFlush => exact .rests rfl rfl
  | cancelWrite i => exact .cancels rfl rfl rfl
  | turn i =>
    rw [move, turn]
    cases hi : d.writes[i]? with
    | none => exact .rests rfl rfl
    | some w =>
      cases hl : w.isLive with
      | true =>
        obtain ⟨⟨status, hw, hstore⟩, -⟩ :=
          @Write.turned_turn w i d.now d.store hl
        refine .turns rfl hi (by simp only [hw]) hstore ?_
        rcases Write.setInStore_mem_turn hl with hcall | hset
        · exact .inl hcall
        · exact .inr (List.mem_append_left _ (List.mem_reverse.mpr hset))
      | false =>
        dsimp only
        rw [Write.turn_of_not_isLive hl]
        obtain ⟨hlt, rfl⟩ := List.getElem?_eq_some_iff.mp hi
        exact .rests (List.set_getElem_self hlt) rfl
  | pass now => exact .rests rfl rfl

/-- No write is lost, and nothing of it changes but how far it is. -/
theorem Moved.kept (h : d.Moved m d') {n : Nat} {w : Write} (hn : d.writes[n]? = some w) :
    ∃ status, d'.writes[n]? = some { w with status } := by
  obtain ⟨hlt, -⟩ := List.getElem?_eq_some_iff.mp hn
  cases h with
  | rests writes _ => exact ⟨w.status, by rw [writes, hn]⟩
  | submits _ _ writes _ => exact ⟨w.status, by rw [writes, List.getElem?_append_left hlt, hn]⟩
  | @cancels i _ writes _ =>
    obtain ⟨status, hc⟩ := w.cancel_eq
    rw [writes, List.getElem?_modify, hn]
    by_cases hi : i = n
    · exact ⟨status, by simp [hi, hc]⟩
    · exact ⟨w.status, by simp [hi]⟩
  | @turns i w' status _ found writes _ _ =>
    rw [writes]
    by_cases hi : i = n
    · subst hi
      obtain rfl : w' = w := Option.some.inj (found.symm.trans hn)
      exact ⟨status, by rw [List.getElem?_set_self hlt]⟩
    · exact ⟨w.status, by rw [List.getElem?_set_ne hi, hn]⟩

/-- A write was there before, or its entries are submitted by the move. -/
theorem Moved.written (h : d.Moved m d') {n : Nat} {w : Write} (hn : d'.writes[n]? = some w) :
    (∃ w₀, d.writes[n]? = some w₀ ∧ w₀.entries = w.entries) ∨
      m = .call .submit ∧ ∃ id, d.writer.submit.1 = .submitted id w.entries := by
  cases h with
  | rests writes _ => exact .inl ⟨w, writes ▸ hn, rfl⟩
  | submits call submit writes _ =>
    rw [writes] at hn
    rcases getElem?_concat_cases hn with hn | ⟨-, rfl⟩
    · exact .inl ⟨w, hn, rfl⟩
    · exact .inr ⟨call, _, submit⟩
  | cancels _ writes _ =>
    rw [writes, List.getElem?_modify] at hn
    obtain ⟨w₀, hn₀, rfl⟩ := Option.map_eq_some_iff.mp hn
    obtain ⟨status, hc⟩ := w₀.cancel_eq
    refine .inl ⟨w₀, hn₀, ?_⟩
    split <;> simp [hc]
  | @turns i w' status _ found writes _ _ =>
    rw [writes] at hn
    by_cases hi : i = n
    · subst hi
      obtain ⟨hlt, -⟩ := List.getElem?_eq_some_iff.mp found
      rw [List.getElem?_set_self hlt, Option.some.injEq] at hn
      exact .inl ⟨w', found, by rw [← hn]⟩
    · exact .inl ⟨w, by rwa [List.getElem?_set_ne hi] at hn, rfl⟩

/-- **The store changes by the entries of a write**, in a turn of it. -/
theorem Moved.entries (h : d.Moved m d') :
    d'.store.store.entries = d.store.store.entries ∨
      ∃ i w, m = .turn i ∧ d.writes[i]? = some w ∧
        d'.store.store.entries = Dictionary.merge d.store.store.entries w.entries := by
  cases h with
  | rests _ store | submits _ _ _ store | cancels _ _ store => exact .inl (by rw [store])
  | turns turn found _ store _ =>
    rcases store with ⟨store, -⟩ | ⟨store, -⟩
    · exact .inl (by rw [store])
    · exact .inr ⟨_, _, turn, found, by rw [store, Store.entries_set]⟩

/-! ### Events -/

/-- **What a move adds to the events**: it hands no entries to the store but those of a write. -/
theorem events_move (d : Desk) (m : DeskMove) :
    ∃ es, (d.move m).events = es ++ d.events ∧
      ∀ n entries, .setInStore n entries ∈ es →
        ∃ w, d.writes[n]? = some w ∧ w.entries = entries := by
  cases m with
  | call c =>
    cases c with
    | record p o => exact ⟨[], rfl, by simp⟩
    | beginFlush =>
      rw [move, beginFlush]
      split
      · exact ⟨[.notice .snapshotOutstanding], rfl, by simp⟩
      · exact ⟨[], rfl, by simp⟩
      · exact ⟨[], rfl, by simp⟩
    | submit =>
      rw [move, flush]
      split
      · exact ⟨[], rfl, by simp⟩
      · exact ⟨[.answered _ (some _), .notice .snapshotUnwritable], rfl, by simp⟩
      · exact ⟨[], rfl, by simp⟩
    | complete flushId =>
      rw [move, complete]
      split
      · exact ⟨[], rfl, by simp⟩
      · exact ⟨[.notice .staleCompletion], rfl, by simp⟩
    | cancelFlush => exact ⟨[], rfl, by simp⟩
  | cancelWrite i => exact ⟨[], rfl, by simp⟩
  | turn i =>
    rw [move, turn]
    cases hi : d.writes[i]? with
    | none => exact ⟨[], rfl, by simp⟩
    | some w =>
      refine ⟨_, rfl, ?_⟩
      intro n entries hm
      rw [List.mem_reverse] at hm
      cases hl : w.isLive with
      | true =>
        obtain ⟨-, hes⟩ := @Write.turned_turn w i d.now d.store hl
        rcases hes _ hm with heq | ⟨error, heq⟩
        · obtain ⟨rfl, rfl⟩ := Event.setInStore.inj heq
          exact ⟨w, hi, rfl⟩
        · cases heq
      | false =>
        rw [Write.turn_of_not_isLive hl] at hm
        cases hm
  | pass now => exact ⟨[], rfl, by simp⟩

end Desk

end ChangeCapture
