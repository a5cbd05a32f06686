import ChangeCapture.Proofs.Dictionary
import ChangeCapture.Proofs.Json.Integers
import ChangeCapture.Json.Printer

/-!
# The numbers of a value

A value is read back from its text if its numbers are, and if the names of its objects are in order.
The first is a matter of numbers alone: 64-bit integers are read back, and so is zero as a double
with either sign, which is how minus zero is held. Of other doubles some are read back as a
neighbour.

## Main definitions

* `Json.Value.numbers`: all numbers of a value.
* `Json.Value.Ordered`: the names of all its objects are in order.
* `Json.Number.ReadsBack`: a number that is read back from its text.

## Main results

* `Json.Value.whole_iff` — a whole value is an ordered one whose numbers are 64-bit integers.
* `Json.readNumber_minusZero` — minus zero is read as a double.
* `Json.Number.readsBack_of_isIntegral` — integers of 64 bits and zeros are read back.
-/

namespace ChangeCapture

namespace Json

open Utf8 (encodeChars)

/-- **All numbers of a value**, as they stand in its text. -/
def Value.numbers : Value → List Number
  | .number n => [n]
  | .array items => itemsNumbers items
  | .object members => membersNumbers members
  | _ => []
where
  /-- The numbers of the items of an array. -/
  itemsNumbers : List Value → List Number
    | [] => []
    | x :: xs => x.numbers ++ itemsNumbers xs
  /-- The numbers of the members of an object. -/
  membersNumbers : List (String × Value) → List Number
    | [] => []
    | (_, x) :: xs => x.numbers ++ membersNumbers xs

/-- **Whether the names of every object in a value are in order.** -/
def Value.Ordered : Value → Prop
  | .array items => orderedItems items
  | .object members => Dictionary.Sorted members ∧ orderedMembers members
  | _ => True
where
  /-- Every item of an array is ordered. -/
  orderedItems : List Value → Prop
    | [] => True
    | x :: xs => x.Ordered ∧ orderedItems xs
  /-- Every member of an object is ordered. -/
  orderedMembers : List (String × Value) → Prop
    | [] => True
    | (_, x) :: xs => x.Ordered ∧ orderedMembers xs

/-- Whether a number is an integer that fits 64 bits. -/
def Number.IsWord : Number → Prop
  | .integer i => fitsWord i = true
  | .real _ => False

mutual

/-- **A whole value** is an ordered one whose numbers are integers of 64 bits. -/
theorem Value.whole_iff : (v : Value) → (v.Whole ↔ v.Ordered ∧ ∀ n ∈ v.numbers, n.IsWord)
  | .null | .bool _ | .string _ => by simp [Whole, Ordered, numbers]
  | .number (.integer i) => by simp [Whole, Ordered, numbers, Number.IsWord]
  | .number (.real x) => by simp [Whole, Ordered, numbers, Number.IsWord]
  | .array xs => wholeItems_iff xs
  | .object ms => by
    rw [Whole, Ordered, wholeMembers_iff ms, and_assoc]
    rfl

/-- Whole items are ordered ones whose numbers are integers of 64 bits. -/
theorem Value.wholeItems_iff : (xs : List Value) →
    (Whole.wholeItems xs ↔ Ordered.orderedItems xs ∧ ∀ n ∈ numbers.itemsNumbers xs, n.IsWord)
  | [] => by simp [Whole.wholeItems, Ordered.orderedItems, numbers.itemsNumbers]
  | x :: xs => by
    rw [Whole.wholeItems, Ordered.orderedItems, numbers.itemsNumbers, Value.whole_iff x,
      Value.wholeItems_iff xs, List.forall_mem_append, and_and_and_comm]

/-- Whole members are ordered ones whose numbers are integers of 64 bits. -/
theorem Value.wholeMembers_iff : (ms : List (String × Value)) →
    (Whole.wholeMembers ms ↔
      Ordered.orderedMembers ms ∧ ∀ n ∈ numbers.membersNumbers ms, n.IsWord)
  | [] => by simp [Whole.wholeMembers, Ordered.orderedMembers, numbers.membersNumbers]
  | (_, x) :: ms => by
    rw [Whole.wholeMembers, Ordered.orderedMembers, numbers.membersNumbers, Value.whole_iff x,
      Value.wholeMembers_iff ms, List.forall_mem_append, and_and_and_comm]

end

/-! ### Numbers that are read back -/

/-- A literal is read as the number that its parts make, with what follows it. -/
theorem number_eq_ok {y : Except Failure Number} {n : Number} {rest r : Bytes}
    (h : (match y with
      | .ok n => .ok (n, rest)
      | .error f => .error f : Parse Number) = .ok (n, r)) : y = .ok n ∧ rest = r := by
  cases y with
  | ok m =>
    obtain ⟨rfl, rfl⟩ := Prod.mk.inj (Except.ok.inj h)
    exact ⟨rfl, rfl⟩
  | error f => cases h

/-- **Whether a number is read back from its text**, whatever follows that ends a number. -/
structure Number.ReadsBack (n : Number) : Prop where
  first : ∃ b r, encodeChars (renderNumber n) = b :: r ∧ (b = byte '-' ∨ isDigit b = true)
  read : ∀ {s : Bytes}, EndsNumber s → readNumber (encodeChars (renderNumber n) ++ s) = .ok (n, s)

/-- Whether a number is an integer, or zero as a double, with either sign. -/
def Number.IsIntegral : Number → Prop
  | .integer _ => True
  | .real x => x.withSign false = Binary64.zero

/-- An integer of 64 bits is read back. -/
theorem Number.IsWord.readsBack {n : Number} (h : n.IsWord) : n.ReadsBack := by
  cases n with
  | integer i => exact ⟨exists_encodeChars_intDigits i, readNumber_intDigits h⟩
  | real x => exact h.elim

/-- The literal of a zero with a point denotes zero, with its sign. -/
theorem realOf_zero (negative : Bool) :
    realOf negative [0] [0] 0 = .ok (.real (Binary64.zero.withSign negative)) := by
  cases negative <;> decide +kernel

/-- Minus zero is no integer of the program: its literal is read as a zero with a sign. -/
theorem readNumber_minusZero {s : Bytes} (hs : EndsNumber s) :
    readNumber (encodeChars ['-', '0'] ++ s) = .ok (.real (Binary64.zero.withSign true), s) :=
  readDigits_natDigits true 0 hs (by decide +kernel)

/-- A zero with a point is read to its end. -/
theorem readDigits_zero (negative : Bool) {s : Bytes} (hs : EndsNumber s) :
    readDigits negative (encodeChars ['0', '.', '0'] ++ s) =
      .ok (.real (Binary64.zero.withSign negative), s) := by
  have hvalue : digitValue (byte '0') = 0 := rfl
  have hzero : ∀ c ∈ ['0'], c.isDigit = true := by simp
  obtain ⟨htake, hdrop⟩ := takeWhile_isDigit hzero hs
  change readFraction negative [0] (['0'].map byte ++ s) = _
  rw [readFraction, digits, htake, hdrop]
  cases s with
  | nil => simp only [List.map_cons, List.map_nil, hvalue, realOf_zero]
  | cons b s =>
    obtain ⟨-, -, he, hE⟩ := hs b rfl
    simp only [List.map_cons, List.map_nil, hvalue, realOf_zero, he, hE, decide_false,
      Bool.or_false, Bool.false_eq_true, if_false]

/-- **Zero is read back** as a double, with its sign. -/
theorem Number.readsBack_zero (negative : Bool) :
    (Number.real (Binary64.zero.withSign negative)).ReadsBack := by
  cases negative with
  | false => exact ⟨⟨_, _, rfl, .inr rfl⟩, fun hs => readDigits_zero false hs⟩
  | true => exact ⟨⟨_, _, rfl, .inl rfl⟩, fun hs => readDigits_zero true hs⟩

/-- **An integral number is read back** if it fits: it is an integer, or a zero with its sign. -/
theorem Number.readsBack_of_isIntegral {n : Number} (h : n.IsIntegral)
    (hword : ∀ i, n = .integer i → fitsWord i = true) : n.ReadsBack := by
  cases n with
  | integer i => exact IsWord.readsBack (hword i rfl)
  | real x =>
    obtain ⟨negative, m, e⟩ := x
    obtain ⟨-, rfl, rfl⟩ := Binary64.mk.inj h
    exact readsBack_zero negative

end Json

end ChangeCapture
