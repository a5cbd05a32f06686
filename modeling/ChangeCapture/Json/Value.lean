import ChangeCapture.Decimal.Binary64
import ChangeCapture.Decimal.Word
import ChangeCapture.Dictionary

/-!
# JSON values

Partitions, positions and record payloads are JSON values. An object is a dictionary in the
code-point order of its names, so equal objects are equal values and have one text.

## Main definitions

* `Json.Number`, `Json.Value`, `Json.Object`.
* `Json.Value.depth`: how deeply arrays and objects nest.
* `Json.Value.Whole`: the numbers of a value are all 64-bit integers.
-/

namespace ChangeCapture

namespace Json

/-- A number: an integer that fits 64 bits, with or without a sign, or a finite double. -/
inductive Number where
  | integer (value : Int)
  | real (value : Binary64)
  deriving DecidableEq, Repr

/-- Whether an integer fits 64 bits, unsigned or signed. -/
def fitsWord (i : Int) : Bool :=
  -(Word.half : Int) ≤ i && i < Word.size

/-- A JSON value. -/
inductive Value where
  | null
  | bool (value : Bool)
  | number (value : Number)
  | string (value : String)
  | array (items : List Value)
  | object (members : List (String × Value))
  deriving Repr, Inhabited

/-- The members of an object, in the order of their names. -/
abbrev Object := Dictionary String Value

/-! ### Equality -/

mutual

/-- Equality of values is decidable. -/
def Value.decEq (a b : Value) : Decidable (a = b) :=
  match a, b with
  | .null, .null => isTrue rfl
  | .bool x, .bool y => if h : x = y then isTrue (h ▸ rfl) else isFalse fun e => h (by cases e; rfl)
  | .number x, .number y =>
    if h : x = y then isTrue (h ▸ rfl) else isFalse fun e => h (by cases e; rfl)
  | .string x, .string y =>
    if h : x = y then isTrue (h ▸ rfl) else isFalse fun e => h (by cases e; rfl)
  | .array xs, .array ys =>
    match Value.decEqItems xs ys with
    | isTrue h => isTrue (h ▸ rfl)
    | isFalse h => isFalse fun e => h (by cases e; rfl)
  | .object xs, .object ys =>
    match Value.decEqMembers xs ys with
    | isTrue h => isTrue (h ▸ rfl)
    | isFalse h => isFalse fun e => h (by cases e; rfl)
  | .null, .bool _ | .null, .number _ | .null, .string _ | .null, .array _ | .null, .object _
  | .bool _, .null | .bool _, .number _ | .bool _, .string _ | .bool _, .array _
  | .bool _, .object _
  | .number _, .null | .number _, .bool _ | .number _, .string _ | .number _, .array _
  | .number _, .object _
  | .string _, .null | .string _, .bool _ | .string _, .number _ | .string _, .array _
  | .string _, .object _
  | .array _, .null | .array _, .bool _ | .array _, .number _ | .array _, .string _
  | .array _, .object _
  | .object _, .null | .object _, .bool _ | .object _, .number _ | .object _, .string _
  | .object _, .array _ => isFalse nofun

/-- Equality of the items of two arrays is decidable. -/
def Value.decEqItems (xs ys : List Value) : Decidable (xs = ys) :=
  match xs, ys with
  | [], [] => isTrue rfl
  | [], _ :: _ | _ :: _, [] => isFalse nofun
  | x :: xs, y :: ys =>
    match Value.decEq x y, Value.decEqItems xs ys with
    | isTrue h, isTrue h' => isTrue (h ▸ h' ▸ rfl)
    | isFalse h, _ => isFalse fun e => h (by cases e; rfl)
    | _, isFalse h => isFalse fun e => h (by cases e; rfl)

/-- Equality of the members of two objects is decidable. -/
def Value.decEqMembers (xs ys : List (String × Value)) : Decidable (xs = ys) :=
  match xs, ys with
  | [], [] => isTrue rfl
  | [], _ :: _ | _ :: _, [] => isFalse nofun
  | (k, x) :: xs, (l, y) :: ys =>
    if hk : k = l then
      match Value.decEq x y, Value.decEqMembers xs ys with
      | isTrue h, isTrue h' => isTrue (hk ▸ h ▸ h' ▸ rfl)
      | isFalse h, _ => isFalse fun e => h (by cases e; rfl)
      | _, isFalse h => isFalse fun e => h (by cases e; rfl)
    else isFalse fun e => hk (by cases e; rfl)

end

instance : DecidableEq Value := Value.decEq

/-! ### Depth -/

/-- How deeply a value nests: zero for a scalar, one for an array or object of scalars. -/
def Value.depth : Value → Nat
  | .array items => 1 + itemsDepth items
  | .object members => 1 + membersDepth members
  | _ => 0
where
  /-- The greatest depth among the items of an array. -/
  itemsDepth : List Value → Nat
    | [] => 0
    | x :: xs => max x.depth (itemsDepth xs)
  /-- The greatest depth among the members of an object. -/
  membersDepth : List (String × Value) → Nat
    | [] => 0
    | (_, x) :: xs => max x.depth (membersDepth xs)

/-! ### Well-formed values -/

/-- **A value with whole numbers**: every number is an integer that fits 64 bits, and the names of
every object are in strictly increasing order. -/
def Value.Whole : Value → Prop
  | .number (.integer i) => fitsWord i = true
  | .number (.real _) => False
  | .array items => wholeItems items
  | .object members => Dictionary.Sorted members ∧ wholeMembers members
  | _ => True
where
  /-- Every item of an array is whole. -/
  wholeItems : List Value → Prop
    | [] => True
    | x :: xs => x.Whole ∧ wholeItems xs
  /-- Every member of an object is whole. -/
  wholeMembers : List (String × Value) → Prop
    | [] => True
    | (_, x) :: xs => x.Whole ∧ wholeMembers xs

end Json

end ChangeCapture
