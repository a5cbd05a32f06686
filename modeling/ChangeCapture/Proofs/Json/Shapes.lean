import ChangeCapture.Proofs.Json.Proper
import Mathlib.Data.List.DropRight

/-!
# Values of a known shape

Where an object is expected, an object is read as it is where any value may stand. Where a value or
`null` is expected, `null` is told by its first byte, so what is read there as a value is not null.

## Main results

* `Json.expectObject_eq_ok_iff` — an object is read as such exactly if it is read as a value.
* `Json.eq_null_iff_of_readValue` — null is told by its first byte.
* `Json.of_optional_readValue` — so what is read as a value where null may stand is not null.
* `Json.Value.Proper.optional_render` — and another value than null is read back there.
-/

namespace ChangeCapture

namespace Json

open Utf8 (encodeChars)

variable {d : Nat} {s r : Bytes} {v : Value} {o : Object}

/-! ### Objects and strings -/

/-- An object is read by the reader of members, after its brace. -/
theorem readValueWith_eq_object {items : Bytes → Parse Value} {members : Bytes → Parse Object}
    (hitems : ∀ t, items t ≠ .ok (.object o, r)) :
    readValueWith items members s = .ok (.object o, r) ↔
      ∃ t, skipBlanks s = byte '\x7b' :: t ∧ members t = .ok (o, r) := by
  constructor
  · intro h
    cases hskip : skipBlanks s with
    | nil => simp [readValueWith, hskip] at h
    | cons b t =>
      simp only [readValueWith, hskip] at h
      split_ifs at h with hn ht hf hnum hq ha ho
      · cases eq_of_map_readWord h
      · cases eq_of_map_readWord h
      · cases eq_of_map_readWord h
      · split at h <;> cases h
      · split at h <;> cases h
      · exact absurd h (hitems t)
      · split at h
        · next hread =>
          obtain ⟨ho', rfl⟩ := Prod.mk.inj (Except.ok.inj h)
          obtain rfl := Value.object.inj ho'
          exact ⟨t, by rw [ho], hread⟩
        · cases h
  · rintro ⟨t, hskip, hread⟩
    rw [readValueWith, hskip]
    exact (readValueWith_brace items members t).trans (by rw [hread])

/-- **An object is read as such exactly if it is read as a value.** -/
theorem expectObject_eq_ok_iff :
    expectObject d s = .ok (o, r) ↔ readValue d s = .ok (.object o, r) := by
  cases d with
  | zero =>
    rw [readValue, readValueWith_eq_object (by simp), expectObject]
    constructor
    · intro h
      split at h
      · split_ifs at h
      · cases h
    · rintro ⟨t, -, h⟩
      cases h
  | succ d =>
    have hitems : ∀ t, readItems (readValue d) t ≠ .ok (.object o, r) := fun t h => by
      obtain ⟨xs, hxs⟩ := exists_array_of_readItems h
      cases hxs
    rw [readValue, readValueWith_eq_object hitems, expectObject]
    constructor
    · intro h
      split at h
      · next b t hskip =>
        split_ifs at h with hb
        exact ⟨t, by rw [hskip, hb], h⟩
      · cases h
    · rintro ⟨t, hskip, h⟩
      rw [hskip]
      simpa only [if_true] using h

/-- A string is read back where one is expected. -/
theorem expectString_render (t : String) (s : Bytes) :
    expectString (encodeChars (render (.string t)) ++ s) = .ok (t, s) := by
  have hq : encodeChars (render (.string t)) ++ s =
      byte '"' :: (encodeChars (t.toList.flatMap escapeChar) ++ byte '"' :: s) := by
    rw [render, encodeChars_quote]
    simp
  rw [hq, expectString, skipBlanks, List.dropWhile_cons_of_neg (by decide)]
  simp only [if_true, readString_quote]

/-! ### Values and null -/

/-- Null is told by its first byte. -/
theorem eq_null_iff_of_readValue (h : readValue d s = .ok (v, r)) :
    v = .null ↔ (skipBlanks s).head? = some (byte 'n') := by
  -- Whatever the level, a reader of arrays never gives null.
  obtain ⟨items, members, hitems, h⟩ : ∃ items members, (∀ t r, items t ≠ .ok (.null, r)) ∧
      readValueWith items members s = .ok (v, r) := by
    cases d with
    | zero => exact ⟨_, _, by simp, h⟩
    | succ d =>
      refine ⟨_, _, fun t r hnull => ?_, h⟩
      obtain ⟨xs, hxs⟩ := exists_array_of_readItems hnull
      cases hxs
  cases hskip : skipBlanks s with
  | nil => simp [readValueWith, hskip] at h
  | cons b t =>
    rw [List.head?_cons, Option.some.injEq]
    simp only [readValueWith, hskip] at h
    split_ifs at h with hn ht hf hnum hq ha ho
    · exact iff_of_true (eq_of_map_readWord h) hn
    · exact iff_of_false (by rw [eq_of_map_readWord h]; nofun) hn
    · exact iff_of_false (by rw [eq_of_map_readWord h]; nofun) hn
    · refine iff_of_false ?_ hn
      rintro rfl
      split at h <;> cases h
    · refine iff_of_false ?_ hn
      rintro rfl
      split at h <;> cases h
    · refine iff_of_false ?_ hn
      rintro rfl
      exact hitems t r h
    · refine iff_of_false ?_ hn
      rintro rfl
      split at h <;> cases h

section Optional

variable {α : Type} {value : Bytes → Parse α} {x : Option α} {y : α} {b : UInt8}

/-- Null is read as nothing. -/
theorem optional_null (value : Bytes → Parse α) (s : Bytes) :
    optional value (encodeChars (render .null) ++ s) = .ok (none, s) := rfl

/-- What does not start as null does is read as a value. -/
theorem optional_cons (hb : IsOpening b) (hn : b ≠ byte 'n') (h : value (b :: s) = .ok (y, r)) :
    optional value (b :: s) = .ok (some y, r) := by
  rw [optional, skipBlanks_of_isOpening hb]
  simp only [if_neg hn, h]

/-- A string is read as something where null may stand. -/
theorem optional_string {t : String}
    (h : value (encodeChars (render (.string t)) ++ s) = .ok (y, r)) :
    optional value (encodeChars (render (.string t)) ++ s) = .ok (some y, r) := by
  rw [render, encodeChars_quote] at h ⊢
  exact optional_cons (by decide) (by decide) h

/-- What is read where null may stand is nothing or a value that does not start as null does. -/
theorem of_optional (h : optional value s = .ok (x, r)) (hy : y ∈ x) :
    value (skipBlanks s) = .ok (y, r) ∧ (skipBlanks s).head? ≠ some (byte 'n') := by
  rw [optional] at h
  split at h
  · next b t hs =>
    rw [hs]
    split_ifs at h with hn
    · rw [eq_of_map_readWord h] at hy
      cases hy
    · split at h
      · next z u hread =>
        obtain ⟨rfl, rfl⟩ := Prod.mk.inj (Except.ok.inj h)
        obtain rfl := Option.some.inj hy
        exact ⟨hread, by simpa using hn⟩
      · cases h
  · next hs =>
    split at h
    · next z u hread =>
      obtain ⟨rfl, rfl⟩ := Prod.mk.inj (Except.ok.inj h)
      obtain rfl := Option.some.inj hy
      exact ⟨by rw [hs, hread], by rw [hs]; nofun⟩
    · cases h

end Optional

/-- What is read as a value where null may stand is proper, nests no deeper than admitted, and is
not null. -/
theorem of_optional_readValue {x : Option Value} (h : optional (readValue d) s = .ok (x, r))
    (hv : v ∈ x) : v.Proper ∧ v.depth ≤ d ∧ v ≠ .null := by
  obtain ⟨hread, hfirst⟩ := of_optional h hv
  have hskip : skipBlanks (skipBlanks s) = skipBlanks s := List.dropWhile_idempotent _ s
  refine ⟨proper_of_readValue hread, depth_le_of_readValue hread, fun hnull => hfirst ?_⟩
  rw [← hskip]
  exact (eq_null_iff_of_readValue hread).mp hnull

/-- **A proper value other than null is read back where null may stand.** -/
theorem Value.Proper.optional_render (hv : v.Proper) (hn : ∀ n ∈ v.numbers, n.IsIntegral)
    (hd : v.depth ≤ d) (hs : EndsNumber s) (hnull : v ≠ .null) :
    optional (readValue d) (encodeChars (render v) ++ s) = .ok (some v, s) := by
  obtain ⟨b, t, ht, hb⟩ := exists_encodeChars_render (hv.readsBack hn)
  have hread := hv.readValue_render hn hd hs
  rw [ht, List.cons_append] at hread ⊢
  refine optional_cons hb (fun hfirst => hnull ((eq_null_iff_of_readValue hread).mpr ?_)) hread
  rw [skipBlanks_of_isOpening hb, List.head?_cons, hfirst]

end Json

end ChangeCapture
