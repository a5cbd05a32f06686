import ChangeCapture.Dictionary
import Mathlib.Order.RelClasses

/-!
# The theory of dictionaries

A sorted dictionary is determined by its look-ups: insertions and merges keep the order, no key
stands twice, and two sorted dictionaries that answer alike are the same list. In a merge the newer
pairs win.

## Main definitions

* `Dictionary.IsLast`: the last value that a list of pairs has for a key.

## Main results

* `Dictionary.Sorted.put`, `Dictionary.Sorted.merge` — the order is kept.
* `Dictionary.get?_merge` — a merge answers from the newer dictionary first.
* `Dictionary.get?_ofList` — the dictionary of a list answers with the last value in it.
* `Dictionary.ext` — dictionaries that answer alike are equal.
* `Dictionary.merge_eq_append`, `Dictionary.ofList_eq_self` — building a dictionary from its own
  pairs gives it back.
-/

namespace ChangeCapture

namespace Dictionary

variable {κ α : Type}

/-! ### Look-ups -/

section Lookup

variable [DecidableEq κ]

/-- A look-up at the first pair. -/
theorem get?_cons (k k' : κ) (v : α) (m : Dictionary κ α) :
    get? k ((k', v) :: m) = if k = k' then some v else get? k m := rfl

/-- What is found is a pair of the dictionary. -/
theorem mem_of_get?_eq_some {k : κ} {v : α} {m : Dictionary κ α} (h : get? k m = some v) :
    (k, v) ∈ m := by
  induction m with
  | nil => cases h
  | cons p m ih =>
    obtain ⟨k', v'⟩ := p
    rw [get?_cons] at h
    by_cases hk : k = k'
    · rw [if_pos hk, Option.some.injEq] at h
      subst hk h
      exact List.mem_cons_self
    · rw [if_neg hk] at h
      exact List.mem_cons_of_mem _ (ih h)

/-- Nothing is found under a key that no pair has. -/
theorem get?_eq_none {k : κ} {m : Dictionary κ α} (h : ∀ p ∈ m, p.1 ≠ k) : get? k m = none := by
  induction m with
  | nil => rfl
  | cons p m ih =>
    rw [get?_cons, if_neg (h p List.mem_cons_self).symm]
    exact ih fun q hq => h q (List.mem_cons_of_mem _ hq)

/-- **Removing a key** changes the answer under it and no other. -/
theorem get?_erase (k k' : κ) (m : Dictionary κ α) :
    get? k' (erase k m) = if k' = k then none else get? k' m := by
  induction m with
  | nil => simp [erase]
  | cons p m ih =>
    obtain ⟨k₁, v₁⟩ := p
    unfold erase at ih ⊢
    by_cases hk : k₁ = k
    · rw [List.filter_cons_of_neg (by simpa using hk), ih, get?_cons]
      by_cases h' : k' = k
      · rw [if_pos h', if_pos h']
      · rw [if_neg h', if_neg h', if_neg (fun h => h' (h.trans hk))]
    · rw [List.filter_cons_of_pos (by simpa using hk), get?_cons, get?_cons, ih]
      by_cases h₁ : k' = k₁
      · rw [if_pos h₁, if_pos h₁, if_neg (fun h => hk (h₁.symm.trans h))]
      · rw [if_neg h₁, if_neg h₁]

end Lookup

/-! ### Sorted dictionaries -/

section Order

variable [LT κ] [IsTrans κ (· < ·)]

/-- A dictionary is sorted if its first key is below all others and the rest is sorted. -/
theorem sorted_cons {p : κ × α} {m : Dictionary κ α} :
    Sorted (p :: m) ↔ (∀ q ∈ m, p.1 < q.1) ∧ Sorted m := by
  induction m generalizing p with
  | nil => simp [Sorted]
  | cons q m ih =>
    constructor
    · rintro ⟨hpq, hs⟩
      refine ⟨fun r hr => ?_, hs⟩
      rcases List.mem_cons.mp hr with rfl | hr
      · exact hpq
      · exact trans_of (· < ·) hpq ((ih.mp hs).1 r hr)
    · rintro ⟨hlt, hs⟩
      exact ⟨hlt q List.mem_cons_self, hs⟩

/-- The rest of a sorted dictionary is sorted. -/
theorem Sorted.tail {p : κ × α} {m : Dictionary κ α} (h : Sorted (p :: m)) : Sorted m :=
  (sorted_cons.mp h).2

/-- A pair that stands before another has the lesser key. -/
theorem Sorted.lt_of_append {a b : Dictionary κ α} (h : Sorted (a ++ b)) {p q : κ × α}
    (hp : p ∈ a) (hq : q ∈ b) : p.1 < q.1 := by
  induction a with
  | nil => cases hp
  | cons r a ih =>
    rcases List.mem_cons.mp hp with rfl | hp
    · exact (sorted_cons.mp h).1 q (List.mem_append_right _ hq)
    · exact ih (Sorted.tail h) hp

end Order

section Insertion

variable [LT κ] [DecidableLT κ] [DecidableEq κ]

/-- An insertion adds no other pair. -/
theorem mem_put {k : κ} {v : α} {m : Dictionary κ α} {p : κ × α} (h : p ∈ put k v m) :
    p = (k, v) ∨ p ∈ m := by
  induction m with
  | nil => exact .inl (List.mem_singleton.mp h)
  | cons q m ih =>
    obtain ⟨k', v'⟩ := q
    rw [put] at h
    split at h
    · exact (List.mem_cons.mp h).imp_right (List.mem_cons_of_mem _)
    · split at h
      · exact List.mem_cons.mp h
      · rcases List.mem_cons.mp h with rfl | h
        · exact .inr List.mem_cons_self
        · exact (ih h).imp_right (List.mem_cons_of_mem _)

/-- A merge adds no other pairs. -/
theorem mem_merge {old : Dictionary κ α} {new : List (κ × α)} {p : κ × α}
    (h : p ∈ merge old new) : p ∈ old ∨ p ∈ new := by
  induction new generalizing old with
  | nil => exact .inl h
  | cons q new ih =>
    rcases ih h with h | h
    · rcases mem_put h with rfl | h
      · exact .inr List.mem_cons_self
      · exact .inl h
    · exact .inr (List.mem_cons_of_mem q h)

/-- An insertion under a new key adds a pair. -/
theorem length_put {k : κ} {m : Dictionary κ α} (h : ∀ p ∈ m, p.1 ≠ k) (v : α) :
    (put k v m).length = m.length + 1 := by
  induction m with
  | nil => rfl
  | cons q m ih =>
    obtain ⟨k', v'⟩ := q
    rw [put, if_neg (h _ List.mem_cons_self).symm]
    split
    · rfl
    · rw [List.length_cons, ih fun p hp => h p (List.mem_cons_of_mem _ hp), List.length_cons]

/-- A merge leaves the answer under a key that no new pair has. -/
theorem get?_merge_of_forall_ne {k : κ} {new : List (κ × α)} (h : ∀ p ∈ new, p.1 ≠ k)
    (old : Dictionary κ α) : get? k (merge old new) = get? k old := by
  induction new generalizing old with
  | nil => rfl
  | cons p new ih =>
    rw [merge_cons, ih (fun q hq => h q (List.mem_cons_of_mem _ hq)), get?_put,
      if_neg (h p List.mem_cons_self).symm]

end Insertion

/-! ### Last values -/

/-- **The last value that a list of pairs has for a key.** -/
def IsLast (k : κ) (v : α) (pairs : List (κ × α)) : Prop :=
  ∃ before after, pairs = before ++ (k, v) :: after ∧ ∀ p ∈ after, p.1 ≠ k

section Last

variable [DecidableEq κ]

/-- A key that stands in a list has a last value in it. -/
theorem exists_isLast {k : κ} {pairs : List (κ × α)} {p : κ × α} (hp : p ∈ pairs) (hk : p.1 = k) :
    ∃ v, IsLast k v pairs := by
  induction pairs generalizing p with
  | nil => cases hp
  | cons q pairs ih =>
    by_cases hlater : ∃ p ∈ pairs, p.1 = k
    · obtain ⟨p, hp, hk⟩ := hlater
      obtain ⟨v, before, after, rfl, hno⟩ := ih hp hk
      exact ⟨v, q :: before, after, rfl, hno⟩
    · have hno : ∀ p ∈ pairs, p.1 ≠ k := fun p hp hk => hlater ⟨p, hp, hk⟩
      rcases List.mem_cons.mp hp with rfl | hp
      · subst hk
        exact ⟨p.2, [], pairs, rfl, hno⟩
      · exact absurd hk (hno p hp)

/-- **The dictionary of a list answers with the last value in it.** -/
theorem get?_ofList [LT κ] [DecidableLT κ] {k : κ} {v : α} {pairs : List (κ × α)} :
    get? k (ofList pairs) = some v ↔ IsLast k v pairs := by
  have last : ∀ {v : α}, IsLast k v pairs → get? k (ofList pairs) = some v := by
    rintro v ⟨before, after, rfl, hno⟩
    have hsplit : ofList (before ++ (k, v) :: after) = merge (put k v (ofList before)) after := by
      rw [ofList, merge, List.foldl_append]
      rfl
    rw [hsplit, get?_merge_of_forall_ne hno, get?_put, if_pos rfl]
  refine ⟨fun h => ?_, last⟩
  by_cases hsome : ∃ p ∈ pairs, p.1 = k
  · obtain ⟨p, hp, hk⟩ := hsome
    obtain ⟨v', hlast⟩ := exists_isLast hp hk
    obtain rfl := Option.some.inj (h.symm.trans (last hlast))
    exact hlast
  · rw [ofList, get?_merge_of_forall_ne fun p hp hk => hsome ⟨p, hp, hk⟩] at h
    cases h

end Last

/-! ### Insertions into sorted dictionaries -/

section Total

variable [LT κ] [DecidableLT κ] [DecidableEq κ] [IsTrans κ (· < ·)] [@Std.Trichotomous κ (· < ·)]

/-- **An insertion keeps the order.** -/
theorem Sorted.put {k : κ} {v : α} {m : Dictionary κ α} (h : Sorted m) :
    Sorted (Dictionary.put k v m) := by
  induction m with
  | nil => trivial
  | cons q m ih =>
    obtain ⟨k', v'⟩ := q
    obtain ⟨hlt, hs⟩ := sorted_cons.mp h
    rw [Dictionary.put]
    split
    · next hk =>
      subst hk
      exact sorted_cons.mpr ⟨hlt, hs⟩
    · split
      · next hlt' => exact ⟨hlt', h⟩
      · next hk hge =>
        refine sorted_cons.mpr ⟨fun r hr => ?_, ih hs⟩
        rcases mem_put hr with rfl | hr
        · by_contra hn
          exact hk (Std.Trichotomous.trichotomous k k' hge hn)
        · exact hlt r hr

/-- **A merge keeps the order** of the dictionary that it starts from. -/
theorem Sorted.merge {old : Dictionary κ α} (h : Sorted old) (new : List (κ × α)) :
    Sorted (Dictionary.merge old new) := by
  induction new generalizing old with
  | nil => exact h
  | cons p new ih => exact ih h.put

/-- The dictionary of a list is sorted. -/
theorem sorted_ofList (pairs : List (κ × α)) : Sorted (ofList pairs) := by
  have hnil : Sorted ([] : Dictionary κ α) := trivial
  exact hnil.merge pairs

end Total

/-! ### Look-ups in sorted dictionaries -/

section Strict

variable [LT κ] [DecidableLT κ] [DecidableEq κ] [IsTrans κ (· < ·)] [@Std.Irrefl κ (· < ·)]

omit [DecidableLT κ] [IsTrans κ (· < ·)] in
/-- A key below all others of a sorted dictionary is not in it. -/
theorem get?_eq_none_of_lt {k : κ} {m : Dictionary κ α} (h : ∀ q ∈ m, k < q.1) : get? k m = none :=
  get?_eq_none fun q hq he => irrefl_of (· < ·) k (by simpa only [he] using h q hq)

omit [DecidableLT κ] in
/-- The pairs of a sorted dictionary are what look-ups find. -/
theorem Sorted.get?_eq_some_iff {k : κ} {v : α} {m : Dictionary κ α} (h : Sorted m) :
    get? k m = some v ↔ (k, v) ∈ m := by
  refine ⟨mem_of_get?_eq_some, fun hm => ?_⟩
  induction m with
  | nil => cases hm
  | cons p m ih =>
    obtain ⟨hlt, hs⟩ := sorted_cons.mp h
    rw [get?_cons]
    rcases List.mem_cons.mp hm with rfl | hm
    · rw [if_pos rfl]
    · have hne : k ≠ p.1 := fun he => irrefl_of (· < ·) k (by simpa only [he] using hlt _ hm)
      rw [if_neg hne]
      exact ih hs hm

/-- **A merge answers from the newer pairs first.** -/
theorem get?_merge (k : κ) (old : Dictionary κ α) {new : Dictionary κ α} (h : Sorted new) :
    get? k (merge old new) = (get? k new).or (get? k old) := by
  induction new generalizing old with
  | nil => rfl
  | cons p new ih =>
    obtain ⟨k', v'⟩ := p
    obtain ⟨hlt, hs⟩ := sorted_cons.mp h
    rw [merge_cons, ih _ hs, get?_put, get?_cons]
    by_cases hk : k = k'
    · subst hk
      rw [if_pos rfl, if_pos rfl, get?_eq_none_of_lt hlt]
      rfl
    · rw [if_neg hk, if_neg hk]

/-- A key above all others of a dictionary is put at its end. -/
theorem put_of_forall_lt {k : κ} {v : α} {m : Dictionary κ α} (h : ∀ q ∈ m, q.1 < k) :
    put k v m = m ++ [(k, v)] := by
  induction m with
  | nil => rfl
  | cons q m ih =>
    obtain ⟨k', v'⟩ := q
    have hlt : k' < k := h _ List.mem_cons_self
    have hne : k ≠ k' := fun he => irrefl_of (· < ·) k (by simpa only [← he] using hlt)
    have hge : ¬ k < k' := fun hgt => irrefl_of (· < ·) k (trans_of (· < ·) hgt hlt)
    rw [put, if_neg hne, if_neg hge, ih fun r hr => h r (List.mem_cons_of_mem _ hr)]
    rfl

/-- The pairs of a sorted dictionary, put one after the other, follow each other. -/
theorem merge_eq_append {a b : Dictionary κ α} (h : Sorted (a ++ b)) : merge a b = a ++ b := by
  induction b generalizing a with
  | nil => rw [merge_nil, List.append_nil]
  | cons p b ih =>
    have hput : put p.1 p.2 a = a ++ [p] :=
      put_of_forall_lt fun q hq => h.lt_of_append hq List.mem_cons_self
    rw [merge_cons, hput, ih (by simpa using h), List.append_assoc, List.singleton_append]

/-- The pairs in the dictionary of a list are the last ones of their keys. -/
theorem mem_ofList_iff [@Std.Trichotomous κ (· < ·)] {k : κ} {v : α} {pairs : List (κ × α)} :
    (k, v) ∈ ofList pairs ↔ IsLast k v pairs := by
  rw [← get?_ofList, (sorted_ofList pairs).get?_eq_some_iff]

/-- **A sorted dictionary is the dictionary of its own pairs.** -/
theorem ofList_eq_self {m : Dictionary κ α} (h : Sorted m) : ofList m = m :=
  merge_eq_append (a := []) h

omit [DecidableLT κ] in
/-- **Dictionaries that answer alike are equal.** -/
theorem ext {m m' : Dictionary κ α} (h : Sorted m) (h' : Sorted m')
    (hget : ∀ k, get? k m = get? k m') : m = m' := by
  have hmem : ∀ p, p ∈ m ↔ p ∈ m' := fun (k, v) => by
    rw [← h.get?_eq_some_iff, ← h'.get?_eq_some_iff, hget]
  have asymm : ∀ a b : κ, a < b → ¬ b < a := fun a b hab hba =>
    irrefl_of (· < ·) a (trans_of (· < ·) hab hba)
  clear hget
  induction m generalizing m' with
  | nil =>
    cases m' with
    | nil => rfl
    | cons q m' => exact absurd ((hmem q).mpr List.mem_cons_self) List.not_mem_nil
  | cons p m ih =>
    cases m' with
    | nil => exact absurd ((hmem p).mp List.mem_cons_self) List.not_mem_nil
    | cons q m' =>
      obtain ⟨hp, hs⟩ := sorted_cons.mp h
      obtain ⟨hq, hs'⟩ := sorted_cons.mp h'
      -- Both heads are the least pair, so they are the same one.
      have hpq : p = q := by
        rcases List.mem_cons.mp ((hmem p).mp List.mem_cons_self) with heq | hpm
        · exact heq
        rcases List.mem_cons.mp ((hmem q).mpr List.mem_cons_self) with heq | hqm
        · exact heq.symm
        exact absurd (hq p hpm) (asymm _ _ (hp q hqm))
      subst hpq
      have hnot : ∀ {n : Dictionary κ α}, (∀ r ∈ n, p.1 < r.1) → p ∉ n := fun hlt hm =>
        irrefl_of (· < ·) p.1 (hlt p hm)
      refine congrArg (p :: ·) (ih hs hs' fun r => ⟨fun hr => ?_, fun hr => ?_⟩)
      · exact (List.mem_cons.mp ((hmem r).mp (List.mem_cons_of_mem _ hr))).resolve_left
          fun heq => hnot hp (heq ▸ hr)
      · exact (List.mem_cons.mp ((hmem r).mpr (List.mem_cons_of_mem _ hr))).resolve_left
          fun heq => hnot hq (heq ▸ hr)

end Strict

end Dictionary

end ChangeCapture
