import ChangeCapture.Proofs.Run.Flushes

/-!
# What abandoned runs leave behind

A run may be dropped wherever it waits, and other runs may follow it. A write in the background goes
on when its run is dropped, unless it was cancelled before. So a run that was dropped while it waited
for a write may still set older positions, after those of a later run were confirmed; but this is the
only write of an earlier run that can, as long as the store lets no cancelled write land.

## Main results

* `Host.Reaches.confirmed_stays` — no other write of an earlier run touches what was confirmed.
* `Host.not_confirmed_stays` — a write that was left behind sets an older position.
-/

namespace ChangeCapture

/-- The flush that an event confirms. -/
def Event.confirmation? : Event → Option Nat
  | .committed n => some n
  | _ => none

/-- What is confirmed can be read off the events of a run. -/
theorem committed_mem {n : Nat} {es : List Event} (h : n ∈ es.filterMap Event.confirmation?) :
    .committed n ∈ es := by
  obtain ⟨e, he, hn⟩ := List.mem_filterMap.mp h
  cases e with
  | committed => exact Option.some.inj hn ▸ he
  | _ => cases hn

namespace Host

variable {s : Setup} {r r' n m t : Nat} {h h₀ : Host} {entries entries' : Entries}
  {before : List HistoryEntry}

/-- Where the submission of a confirmed flush stands. -/
theorem exists_of_confirmed {history : List HistoryEntry}
    (hc : Confirmed history r n entries before) :
    ∃ later t, history = later ++ ⟨r, t, .submitted n entries⟩ :: before := by
  obtain ⟨later, t, between, t', heq⟩ := hc
  exact ⟨later ++ ⟨r, t, .committed n⟩ :: between, t', by rw [heq, List.append_assoc]; rfl⟩

/-- A write with a lower number than that of a confirmed flush was submitted before it. -/
theorem Reaches.mem_of_confirmed (hf : h₀.Fresh) (hr : Reaches s h₀ h)
    (hc : Confirmed h.history r n entries before) {w : Write} (hw : h.writes[m]? = some w)
    (hlt : m < n) : ∃ t, ⟨w.run, t, .submitted m w.entries⟩ ∈ before := by
  obtain ⟨t, hm⟩ := mem_eventsOf.mp ((Reaches.booked hf hr).written m w hw)
  obtain ⟨later, t', heq⟩ := exists_of_confirmed hc
  exact ⟨t, (Reaches.numbered hf hr).submitted_before heq hm hlt⟩

/-- **An abandoned run overwrites nothing later, but for the write it was dropped with.** Once a
flush is confirmed, the writes that were submitted before it, by whatever run, do nothing any more:
their turns leave the host as it is. Left out is the write that a run waited for when it was
dropped. It is assumed of the store, not proved, that a write acts no more once it is cancelled: the
turn of a cancelled write does nothing, while a store that had accepted it before may let it land. -/
theorem Reaches.confirmed_stays (hf : h₀.Fresh) (hr : Reaches s h₀ h)
    (hc : Confirmed h.history r n entries before)
    (hm : ⟨r', t, .submitted m entries'⟩ ∈ before)
    (hno : abandonedFlush? (eventsOf r' h.history) ≠ some m) : h.turnWrite m = h := by
  have hnumbered := Reaches.numbered hf hr
  have hmem : .submitted m entries' ∈ eventsOf r' h.history :=
    mem_eventsOf.mpr ⟨t, hc.suffix.subset hm⟩
  obtain ⟨w, hw, rfl, -⟩ := (Reaches.equipped hf hr).registered r' m entries' hmem
  refine IsOver.turnWrite ⟨w, hw, Bool.eq_false_iff.mpr fun hl => ?_⟩
  obtain ⟨later, t', heq⟩ := exists_of_confirmed hc
  rcases Reaches.live_cases hf hr hw hl with hawaits | ⟨-, hopen⟩
  · -- The write that is waited for is the newest, and this one is older.
    have hnewest := hnumbered.newest _ m hawaits
    have hlt := hnumbered.lt_of_submitted heq hm
    have hle := hnumbered.lt_length heq
    omega
  · exact hno hopen

/-- The first run has its flush confirmed and is dropped while it polls; the second one goes on. -/
theorem confirmed_stays_after_drop :
    let s : Setup :=
      { config := { name := "engine", connectorClass := "source", flushTimeout := 5000
                    keyConverter := .json, valueConverter := .json, properties := [] }
        registry := Registry.empty.register "source" {}
        consumer := fun _ => {} }
    let x (row : Nat) : Record :=
      { partition := [("shard", .number (.integer 1))]
        offset := [("row", .number (.integer row))]
        topic := "rows", key := none, value := .null, timestamp := none }
    let h₀ : Host := { feed := [.batch [x 1]] }
    let h₁ := ((h₀.request.runOn s 0 20).turnWrite 0).runOn s 0 20
    let h₂ := (((h₁.abort 0).runOn s 0 1).provide (.batch [x 2])).request.runOn s 1 20
    let h := (h₂.turnWrite 1).runOn s 1 20
    ∃ entries before t entries', Confirmed h.history 1 1 entries before ∧
      ⟨0, t, .submitted 0 entries'⟩ ∈ before ∧
      abandonedFlush? (eventsOf 0 h.history) ≠ some 0 ∧ h.turnWrite 0 = h := by
  intro s x h₀ h₁ h₂ h
  have hf : h₀.Fresh := ⟨rfl, rfl, rfl, rfl⟩
  have hr₁ : Reaches s h₀ h₁ :=
    Reaches.runOn (.tail (Reaches.runOn (.tail .refl .request) 0 20) (.write 0)) 0 20
  have hr₂ : Reaches s h₀ h₂ :=
    Reaches.runOn (.tail (.tail (Reaches.runOn (hr₁.tail (.abort 0)) 0 1)
      (.provide (.batch [x 2]))) .request) 1 20
  have hr : Reaches s h₀ h := Reaches.runOn (hr₂.tail (.write 1)) 1 20
  have hmem : 1 ∈ (eventsOf 1 h.history).filterMap Event.confirmation? := by decide +kernel
  obtain ⟨entries, before, hc⟩ := Reaches.confirmed_of_committed hf hr (committed_mem hmem)
  have hno : abandonedFlush? (eventsOf 0 h.history) ≠ some 0 := by decide +kernel
  have hfirst : (h.writes[0]?).map Write.run = some 0 := by decide +kernel
  obtain ⟨w, hw, hrun⟩ := Option.map_eq_some_iff.mp hfirst
  obtain ⟨t, hm⟩ := Reaches.mem_of_confirmed hf hr hc hw (by decide)
  rw [hrun] at hm
  exact ⟨entries, before, t, w.entries, hc, hm, hno, Reaches.confirmed_stays hf hr hc hm hno⟩

/-- **A write that was left behind sets an older position.** The first run is dropped while it waits
for a slow write of its position. The second run has a newer position confirmed, and then the slow
write comes back and sets the older one. -/
theorem not_confirmed_stays :
    ¬ ∀ (s : Setup) (h₀ h : Host) (r n r' m t : Nat) (entries entries' : Entries)
      (before : List HistoryEntry) (p : Partition), h₀.Fresh → Reaches s h₀ h →
      Confirmed h.history r n entries before →
      Dictionary.get? (s.offsetFormat.keyBytes p) entries ≠ none →
      ⟨r', t, .submitted m entries'⟩ ∈ before → r' ≠ r →
      Dictionary.get? (s.offsetFormat.keyBytes p) (h.turnWrite m).store.store.entries =
        Dictionary.get? (s.offsetFormat.keyBytes p) h.store.store.entries := by
  intro hall
  let s : Setup :=
    { config := { name := "engine", connectorClass := "source", flushTimeout := 5000
                  keyConverter := .json, valueConverter := .json, properties := [] }
      registry := Registry.empty.register "source" {}
      consumer := fun _ => {} }
  let p : Partition := [("shard", .number (.integer 1))]
  let x (row : Nat) : Record :=
    { partition := p, offset := [("row", .number (.integer row))]
      topic := "rows", key := none, value := .null, timestamp := none }
  let plan : StorePlan :=
    { sets := fun call => if call = 0 then .answers 1000 none else .succeeds }
  let h₀ : Host := { feed := [.batch [x 1]], store := { plan } }
  let h₁ := (h₀.request.runOn s 0 20).turnWrite 0
  let h₂ := (((h₁.abort 0).runOn s 0 1).provide (.batch [x 2])).request.runOn s 1 20
  let h₃ := (h₂.turnWrite 1).runOn s 1 20
  let h : Host := { h₃ with now := 1000 }
  have hf : h₀.Fresh := ⟨rfl, rfl, rfl, rfl⟩
  have hr₁ : Reaches s h₀ h₁ := .tail (Reaches.runOn (.tail .refl .request) 0 20) (.write 0)
  have hr₂ : Reaches s h₀ h₂ :=
    Reaches.runOn (.tail (.tail (Reaches.runOn (hr₁.tail (.abort 0)) 0 1)
      (.provide (.batch [x 2]))) .request) 1 20
  have hr : Reaches s h₀ h :=
    (Reaches.runOn (hr₂.tail (.write 1)) 1 20).tail (.pass (by decide +kernel))
  have hmem : 1 ∈ (eventsOf 1 h.history).filterMap Event.confirmation? := by decide +kernel
  obtain ⟨entries, before, hc⟩ := Reaches.confirmed_of_committed hf hr (committed_mem hmem)
  obtain ⟨w', hw', -, rfl⟩ := (Reaches.equipped hf hr).registered 1 1 entries hc.submitted
  have hcontains : ((h.writes[1]?).bind fun w =>
      Dictionary.get? (s.offsetFormat.keyBytes p) w.entries) ≠ none := by decide +kernel
  rw [hw', Option.bind_some] at hcontains
  have hfirst : (h.writes[0]?).map Write.run = some 0 := by decide +kernel
  obtain ⟨w, hw, hrun⟩ := Option.map_eq_some_iff.mp hfirst
  obtain ⟨t, hm⟩ := Reaches.mem_of_confirmed hf hr hc hw (by decide)
  rw [hrun] at hm
  have hsame := hall s h₀ h 1 1 0 0 t _ _ before p hf hr hc hcontains hm (by decide)
  have hdiffers : Dictionary.get? (s.offsetFormat.keyBytes p) (h.turnWrite 0).store.store.entries ≠
      Dictionary.get? (s.offsetFormat.keyBytes p) h.store.store.entries := by decide +kernel
  exact hdiffers hsame

end Host

end ChangeCapture
