/-!
# Dictionaries in key order

A dictionary is a list of pairs that its own operations keep in strictly increasing key order, so
that two dictionaries with the same content are the same list. The view is `get?`; `get?_put` says
what an insertion does to it, whatever the list.

## Main definitions

* `Dictionary`, `Dictionary.get?`, `Dictionary.put`, `Dictionary.merge`, `Dictionary.ofList`.
* `Dictionary.Sorted`: the order of the keys.
-/

namespace ChangeCapture

/-- Pairs of a key and its value, in key order. -/
abbrev Dictionary (κ α : Type) := List (κ × α)

namespace Dictionary

variable {κ α : Type}

section Lookup

variable [DecidableEq κ]

/-- The value under a key. -/
def get? (k : κ) : Dictionary κ α → Option α
  | [] => none
  | (k', v) :: m => if k = k' then some v else get? k m

/-- Whether a key has a value. -/
def contains (k : κ) (m : Dictionary κ α) : Bool :=
  (get? k m).isSome

/-- Removes a key. -/
def erase (k : κ) (m : Dictionary κ α) : Dictionary κ α :=
  m.filter fun p => decide (p.1 ≠ k)

@[simp] theorem get?_nil (k : κ) : get? k ([] : Dictionary κ α) = none := rfl

end Lookup

/-- The keys, in order. -/
def keys (m : Dictionary κ α) : List κ :=
  m.map Prod.fst

/-- The keys are in strictly increasing order. -/
def Sorted [LT κ] : Dictionary κ α → Prop
  | [] | [_] => True
  | (k, _) :: (l, w) :: rest => k < l ∧ Sorted ((l, w) :: rest)

section Insertion

variable [LT κ] [DecidableLT κ] [DecidableEq κ]

/-- Sets the value under a key, in place if the key is there and before the first greater key
otherwise. -/
def put (k : κ) (v : α) : Dictionary κ α → Dictionary κ α
  | [] => [(k, v)]
  | (k', v') :: m =>
    if k = k' then (k, v) :: m
    else if k < k' then (k, v) :: (k', v') :: m
    else (k', v') :: put k v m

/-- Sets every pair of `new`, in order: where a key repeats, the later value stays. -/
def merge (old : Dictionary κ α) (new : List (κ × α)) : Dictionary κ α :=
  new.foldl (fun m p => put p.1 p.2 m) old

/-- The dictionary of a list of pairs. -/
def ofList (pairs : List (κ × α)) : Dictionary κ α :=
  merge [] pairs

/-- **An insertion changes its own key and no other.** -/
theorem get?_put (k k' : κ) (v : α) (m : Dictionary κ α) :
    get? k' (put k v m) = if k' = k then some v else get? k' m := by
  induction m with
  | nil => rfl
  | cons p m ih =>
    obtain ⟨k₁, v₁⟩ := p
    by_cases hk : k = k₁
    · subst hk
      simp only [put, if_true, get?]
      split <;> rfl
    · by_cases hlt : k < k₁
      · simp only [put, if_neg hk, if_pos hlt, get?]
      · simp only [put, if_neg hk, if_neg hlt, get?, ih]
        by_cases h₁ : k' = k₁
        · simp [h₁, Ne.symm hk]
        · simp [h₁]

/-- A merge of no pairs changes nothing. -/
@[simp] theorem merge_nil (m : Dictionary κ α) : merge m [] = m := rfl

/-- A merge takes its pairs one by one. -/
theorem merge_cons (m : Dictionary κ α) (p : κ × α) (new : List (κ × α)) :
    merge m (p :: new) = merge (put p.1 p.2 m) new := rfl

end Insertion

end Dictionary

end ChangeCapture
