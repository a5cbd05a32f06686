import ChangeCapture.Proofs.Json.Depth

/-!
# What is read is proper

A value as the program holds it has the names of its objects in order, and its integers have 64
bits. Whatever a text looks like, what is read from it is such a value: an integer literal that is
too long is read as a double, and a name that repeats is put in its place.

## Main definitions

* `Json.Value.Proper`: an ordered value whose integers have 64 bits.

## Main results

* `Json.proper_of_readValue` — what is read is proper.
* `Json.Value.Proper.readValue_render` — a proper value with integral numbers is read back.
-/

namespace ChangeCapture

namespace Json

open Utf8 (encodeChars)

/-- Whether a number is a double or an integer that fits 64 bits. -/
def Number.Fits : Number → Prop
  | .integer i => fitsWord i = true
  | .real _ => True

/-- **A proper value**: the names of its objects are in order, and its integers have 64 bits. -/
structure Value.Proper (v : Value) : Prop where
  ordered : v.Ordered
  fits : ∀ n ∈ v.numbers, n.Fits

/-! ### Containers -/

/-- Items are ordered if each one is. -/
theorem Value.orderedItems_iff {xs : List Value} :
    Ordered.orderedItems xs ↔ ∀ x ∈ xs, x.Ordered := by
  induction xs with
  | nil => simp [Ordered.orderedItems]
  | cons x xs ih => simp [Ordered.orderedItems, ih]

/-- Members are ordered if each one is. -/
theorem Value.orderedMembers_iff {ms : List (String × Value)} :
    Ordered.orderedMembers ms ↔ ∀ m ∈ ms, m.2.Ordered := by
  induction ms with
  | nil => simp [Ordered.orderedMembers]
  | cons m ms ih => simp [Ordered.orderedMembers, ih]

/-- A number of some items is a number of one of them. -/
theorem Value.mem_itemsNumbers {n : Number} {xs : List Value} :
    n ∈ numbers.itemsNumbers xs ↔ ∃ x ∈ xs, n ∈ x.numbers := by
  induction xs with
  | nil => simp [numbers.itemsNumbers]
  | cons x xs ih => simp [numbers.itemsNumbers, ih]

/-- A number of some members is a number of one of them. -/
theorem Value.mem_membersNumbers {n : Number} {ms : List (String × Value)} :
    n ∈ numbers.membersNumbers ms ↔ ∃ m ∈ ms, n ∈ m.2.numbers := by
  induction ms with
  | nil => simp [numbers.membersNumbers]
  | cons m ms ih => simp [numbers.membersNumbers, ih]

/-- An array of proper values is proper. -/
theorem Value.proper_array {xs : List Value} (h : ∀ x ∈ xs, x.Proper) : (Value.array xs).Proper where
  ordered := orderedItems_iff.mpr fun x hx => (h x hx).ordered
  fits := fun n hn => by
    obtain ⟨x, hx, hn⟩ := mem_itemsNumbers.mp hn
    exact (h x hx).fits n hn

/-- An object of proper values with its names in order is proper. -/
theorem Value.proper_object {ms : Object} (hsorted : Dictionary.Sorted ms)
    (h : ∀ m ∈ ms, m.2.Proper) : (Value.object ms).Proper where
  ordered := ⟨hsorted, orderedMembers_iff.mpr fun m hm => (h m hm).ordered⟩
  fits := fun n hn => by
    obtain ⟨m, hm, hn⟩ := mem_membersNumbers.mp hn
    exact (h m hm).fits n hn

/-! ### Numbers -/

/-- A significand stays below `2 ^ 64`. -/
theorem significand_lt {n : Nat} {ds : List Nat} (h : n < Word.size) :
    (significand n ds).1 < Word.size := by
  induction ds generalizing n with
  | nil => exact h
  | cons d ds ih =>
    rw [significand]
    split
    · next hlt => exact ih hlt
    · exact h

section Numbers

variable {negative : Bool} {whole fraction : List Nat} {exponent : Int} {s r : Bytes} {n : Number}

/-- A literal with a point or an exponent is a double. -/
theorem fits_of_realOf (h : realOf negative whole fraction exponent = .ok n) : n.Fits := by
  rw [realOf] at h
  dsimp only at h
  split at h
  · obtain rfl := Except.ok.inj h
    trivial
  · cases h

/-- An integer literal is an integer of 64 bits or a double. -/
theorem fits_of_wholeOf (h : wholeOf negative whole = .ok n) : n.Fits := by
  have hlt : (significand 0 whole).1 < Word.size := significand_lt (by decide)
  have hword : Word.half ≤ Word.size := by decide
  rw [wholeOf] at h
  dsimp only at h
  split_ifs at h with hleft hpositive hhalf
  · obtain rfl := Except.ok.inj h
    simp only [Number.Fits, fitsWord, Bool.and_eq_true, decide_eq_true_eq]
    omega
  · obtain rfl := Except.ok.inj h
    simp only [Bool.and_eq_true, decide_eq_true_eq] at hhalf
    simp only [Number.Fits, fitsWord, Bool.and_eq_true, decide_eq_true_eq]
    omega
  · exact fits_of_realOf h
  · exact fits_of_realOf h

/-- A literal with an exponent fits. -/
theorem fits_of_readExponent (h : readExponent negative whole fraction s = .ok (n, r)) :
    n.Fits := by
  rw [readExponent.eq_def] at h
  split at h
  split at h
  · cases h
  · split at h
    · exact fits_of_realOf (number_eq_ok h).1
    · cases h

/-- A literal with a fraction fits. -/
theorem fits_of_readFraction (h : readFraction negative whole s = .ok (n, r)) : n.Fits := by
  rw [readFraction] at h
  split at h
  · cases h
  · cases h
  · split_ifs at h
    · exact fits_of_readExponent h
    · exact fits_of_realOf (number_eq_ok h).1
  · exact fits_of_realOf (number_eq_ok h).1

/-- A literal fits, whatever follows the digits before the point. -/
theorem fits_of_readAfterWhole (h : readAfterWhole negative whole s = .ok (n, r)) : n.Fits := by
  rw [readAfterWhole.eq_def] at h
  split at h
  · split_ifs at h
    · exact fits_of_readFraction h
    · exact fits_of_readExponent h
    · exact fits_of_wholeOf (number_eq_ok h).1
  · exact fits_of_wholeOf (number_eq_ok h).1

/-- A literal fits, with or without a sign. -/
theorem fits_of_readDigits (h : readDigits negative s = .ok (n, r)) : n.Fits := by
  rw [readDigits.eq_def] at h
  split at h
  · cases h
  · split_ifs at h
    · exact fits_of_readAfterWhole h
    · exact fits_of_readAfterWhole h

/-- **A number that is read fits.** -/
theorem fits_of_readNumber (h : readNumber s = .ok (n, r)) : n.Fits := by
  rw [readNumber.eq_def] at h
  split at h
  · split_ifs at h <;> exact fits_of_readDigits h
  · cases h

end Numbers

/-! ### Values -/

/-- A value without numbers and objects is proper. -/
theorem Value.Proper.of_nil {v : Value} (ho : v.Ordered) (hn : v.numbers = []) : v.Proper :=
  ⟨ho, by simp [hn]⟩

/-- A value is proper if arrays and objects are. -/
theorem proper_of_readValueWith {items : Bytes → Parse Value} {members : Bytes → Parse Object}
    {s r : Bytes} {v : Value} (hitems : ∀ {s v r}, items s = .ok (v, r) → v.Proper)
    (hmembers : ∀ {s o r}, members s = .ok (o, r) → (Value.object o).Proper)
    (h : readValueWith items members s = .ok (v, r)) : v.Proper := by
  cases hskip : skipBlanks s with
  | nil => simp [readValueWith, hskip] at h
  | cons b t =>
    simp only [readValueWith, hskip] at h
    split_ifs at h
    · exact eq_of_map_readWord h ▸ .of_nil trivial rfl
    · exact eq_of_map_readWord h ▸ .of_nil trivial rfl
    · exact eq_of_map_readWord h ▸ .of_nil trivial rfl
    · split at h
      · next n u hread =>
        obtain ⟨rfl, -⟩ := Prod.mk.inj (Except.ok.inj h)
        exact ⟨trivial, by simpa [Value.numbers] using fits_of_readNumber hread⟩
      · cases h
    · split at h
      · obtain ⟨rfl, -⟩ := Prod.mk.inj (Except.ok.inj h)
        exact .of_nil trivial rfl
      · cases h
    · exact hitems h
    · split at h
      · next hread =>
        obtain ⟨rfl, -⟩ := Prod.mk.inj (Except.ok.inj h)
        exact hmembers hread
      · cases h

section Containers

variable {value : Bytes → Parse Value} {s r : Bytes} {v : Value} {o : Object}

/-- What is read as an array is proper if its items are. -/
theorem proper_of_readItems (hvalue : ∀ {s v r}, value s = .ok (v, r) → v.Proper)
    (h : readItems value s = .ok (v, r)) : v.Proper := by
  obtain ⟨xs, rfl, hxs⟩ := forall_mem_of_readItems hvalue h
  exact Value.proper_array hxs

/-- What is read as an object is proper if its members are. -/
theorem proper_of_readMembers (hvalue : ∀ {s v r}, value s = .ok (v, r) → v.Proper)
    (h : readMembers value s = .ok (o, r)) : (Value.object o).Proper :=
  have hmembers := forall_mem_of_readMembers hvalue h
  Value.proper_object hmembers.1 hmembers.2

end Containers

/-- **What is read is proper.** -/
theorem proper_of_readValue {d : Nat} {s r : Bytes} {v : Value}
    (h : readValue d s = .ok (v, r)) : v.Proper := by
  induction d generalizing s v r with
  | zero => exact proper_of_readValueWith (by simp) (by simp) h
  | succ d ih =>
    exact proper_of_readValueWith (proper_of_readItems ih) (proper_of_readMembers ih) h

/-- The integral numbers of a proper value are read back. -/
theorem Value.Proper.readsBack {v : Value} (hv : v.Proper) (hn : ∀ n ∈ v.numbers, n.IsIntegral) :
    ∀ n ∈ v.numbers, n.ReadsBack := by
  intro n hmem
  refine Number.readsBack_of_isIntegral (hn n hmem) fun i hi => ?_
  subst hi
  exact hv.fits _ hmem

/-- **A proper value with integral numbers is read back**, whatever follows. -/
theorem Value.Proper.readValue_render {v : Value} (hv : v.Proper)
    (hn : ∀ n ∈ v.numbers, n.IsIntegral) {d : Nat} (hd : v.depth ≤ d) {s : Bytes}
    (hs : EndsNumber s) : readValue d (encodeChars (render v) ++ s) = .ok (v, s) :=
  readValue_render_ordered v hv.ordered (hv.readsBack hn) hd hs

end Json

end ChangeCapture
