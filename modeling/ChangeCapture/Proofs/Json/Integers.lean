import ChangeCapture.Proofs.Json.Strings

/-!
# The round trip of JSON integers

An integer that fits 64 bits is read back from its decimal text if what stands after it could not go
on a number.

## Main results

* `Json.significand_eq` — digits whose value fits a word are all significant.
* `Json.readNumber_intDigits` — an integer is read back.
-/

namespace ChangeCapture

namespace Json

/-- What may stand after a number without becoming a part of it. -/
def EndsNumber (s : Bytes) : Prop :=
  ∀ b ∈ s.head?, isDigit b = false ∧ b ≠ byte '.' ∧ b ≠ byte 'e' ∧ b ≠ byte 'E'

/-! ### Decimal digits -/

/-- The value of digits after a number that has been read. -/
def digitsValue (n : Nat) (ds : List Nat) : Nat :=
  ds.foldl (fun n d => n * 10 + d) n

/-- More digits do not make a number smaller. -/
theorem le_digitsValue (n : Nat) (ds : List Nat) : n ≤ digitsValue n ds := by
  induction ds generalizing n with
  | nil => exact Nat.le_refl n
  | cons d ds ih =>
    have := ih (n * 10 + d)
    change n ≤ digitsValue (n * 10 + d) ds
    omega

/-- **Digits whose value fits a word are all significant.** -/
theorem significand_eq {n : Nat} {ds : List Nat} (h : digitsValue n ds < Word.size) :
    significand n ds = (digitsValue n ds, []) := by
  induction ds generalizing n with
  | nil => rfl
  | cons d ds ih =>
    have hle := le_digitsValue (n * 10 + d) ds
    have hlt : digitsValue (n * 10 + d) ds < Word.size := h
    rw [significand, if_pos (by omega), ih hlt]
    rfl

/-- A decimal digit is ASCII, and its byte is a digit with its value. -/
theorem byte_of_isDigit {c : Char} (h : c.isDigit = true) :
    c.toNat < 0x80 ∧ isDigit (byte c) = true ∧ digitValue (byte c) = c.toNat - '0'.toNat := by
  have hr : 48 ≤ c.toNat ∧ c.toNat ≤ 57 := by
    simpa [Char.isDigit, UInt32.le_iff_toNat_le] using h
  have hlt : c.toNat < 0x80 := by omega
  refine ⟨hlt, ?_, ?_⟩
  · simp only [isDigit, UInt8.le_iff_toNat_le, toNat_byte hlt, Bool.and_eq_true, decide_eq_true_eq]
    exact hr
  · rw [digitValue, toNat_byte hlt]
    rfl

/-- Decimal digits are one byte each. -/
theorem encodeChars_digits {cs : List Char} (h : ∀ c ∈ cs, c.isDigit = true) :
    Utf8.encodeChars cs = cs.map byte := by
  induction cs with
  | nil => rfl
  | cons c cs ih =>
    rw [encodeChars_cons_ascii (byte_of_isDigit (h c List.mem_cons_self)).1,
      ih fun c' hc' => h c' (List.mem_cons_of_mem _ hc'), List.map_cons]

/-- The digits of a natural number are decimal digits. -/
theorem isDigit_of_mem_natDigits {n : Nat} {c : Char} (h : c ∈ natDigits n) : c.isDigit = true :=
  Nat.isDigit_of_mem_toDigits (by decide) (by decide) h

/-- The digits of a number, read as a number. -/
theorem digitsValue_natDigits (n : Nat) :
    digitsValue 0 ((natDigits n).map fun c => digitValue (byte c)) = n := by
  have hmap : (natDigits n).map (fun c => digitValue (byte c)) =
      (natDigits n).map fun c => c.toNat - '0'.toNat :=
    List.map_congr_left fun c hc => (byte_of_isDigit (isDigit_of_mem_natDigits hc)).2.2
  have hval : Nat.ofDigitChars 10 (natDigits n) 0 = n := Nat.ofDigitChars_ten_toDigits
  rw [Nat.ofDigitChars_eq_foldl] at hval
  rw [hmap, digitsValue, List.foldl_map]
  simpa only [Nat.mul_comm] using hval

/-- Where digits end, they are cut off from what follows. -/
theorem takeWhile_isDigit {cs : List Char} (h : ∀ c ∈ cs, c.isDigit = true) {s : Bytes}
    (hs : EndsNumber s) :
    (cs.map byte ++ s).takeWhile isDigit = cs.map byte ∧
      (cs.map byte ++ s).dropWhile isDigit = s := by
  induction cs with
  | nil =>
    cases s with
    | nil => exact ⟨rfl, rfl⟩
    | cons b s =>
      have hb : isDigit b = false := (hs b rfl).1
      simp [hb]
  | cons c cs ih =>
    have hc : isDigit (byte c) = true := (byte_of_isDigit (h c List.mem_cons_self)).2.1
    obtain ⟨ht, hd⟩ := ih fun c' hc' => h c' (List.mem_cons_of_mem _ hc')
    simp [hc, ht, hd]

/-- Only the number zero starts with the digit zero. -/
theorem head?_natDigits {n : Nat} (h : 0 < n) : (natDigits n).head? ≠ some '0' := by
  induction n using Nat.strongRecOn with
  | ind n ih =>
    unfold natDigits at ih ⊢
    by_cases hlt : n < 10
    · rw [Nat.toDigits_of_lt_base hlt, List.head?_cons]
      intro hd
      have hz : n.digitChar = '0' := Option.some.inj hd
      have hv := Nat.toNat_digitChar_sub_48_of_lt_ten hlt
      rw [hz] at hv
      exact Nat.ne_of_lt h hv
    · have hrest := ih (n / 10) (by omega) (by omega)
      rw [Nat.toDigits_of_base_le (by decide) (by omega), List.head?_append]
      cases hds : Nat.toDigits 10 (n / 10) with
      | nil => exact absurd hds Nat.toDigits_ne_nil
      | cons c cs =>
        rw [hds] at hrest
        exact hrest

/-! ### Whole literals -/

/-- After the digits of an integer, the literal is over. -/
theorem readAfterWhole_eq (negative : Bool) (ds : List Nat) {s : Bytes} (hs : EndsNumber s)
    {x : Number}
    (hx : wholeOf negative ds = .ok x) : readAfterWhole negative ds s = .ok (x, s) := by
  cases s with
  | nil => rw [readAfterWhole, hx]
  | cons b s =>
    obtain ⟨-, hp, he, hE⟩ := hs b rfl
    simp only [readAfterWhole, if_neg hp, he, hE, decide_false, Bool.or_false, Bool.false_eq_true,
      if_false, hx]

/-- The digits of a natural number are read up to what follows. -/
theorem readDigits_natDigits (negative : Bool) (n : Nat) {s : Bytes} (hs : EndsNumber s)
    {x : Number} (hx : wholeOf negative ((natDigits n).map fun c => digitValue (byte c)) = .ok x) :
    readDigits negative (Utf8.encodeChars (natDigits n) ++ s) = .ok (x, s) := by
  have hall : ∀ c ∈ natDigits n, c.isDigit = true := fun _ => isDigit_of_mem_natDigits
  obtain ⟨ht, hd⟩ := takeWhile_isDigit hall hs
  rw [encodeChars_digits hall]
  rcases Nat.eq_zero_or_pos n with rfl | hn
  · have hzero : natDigits 0 = ['0'] := Nat.toDigits_zero 10
    rw [hzero] at hx ⊢
    have hnot : s.head?.any isDigit = false := by
      cases s with
      | nil => rfl
      | cons b s => exact (hs b rfl).1
    change readDigits negative (byte '0' :: s) = _
    rw [readDigits, if_pos rfl, hnot]
    exact readAfterWhole_eq negative _ hs hx
  · cases hds : natDigits n with
    | nil => exact absurd hds Nat.toDigits_ne_nil
    | cons c cs =>
      have hhead := head?_natDigits hn
      rw [hds] at ht hd hall hx hhead
      have hc := byte_of_isDigit (hall c List.mem_cons_self)
      have hne : byte c ≠ byte '0' := fun heq => hhead (by
        have := toNat_byte hc.1
        rw [heq, toNat_byte (by decide)] at this
        rw [List.head?_cons]
        exact congrArg some (Char.ext (UInt32.toNat_inj.mp this.symm)))
      rw [List.map_cons, List.cons_append] at ht hd ⊢
      rw [readDigits, if_neg hne, if_pos hc.2.1, digits, ht, hd]
      refine readAfterWhole_eq negative _ hs ?_
      rw [← List.map_cons, List.map_map]
      exact hx

/-- Digits without a sign, as the literal of a number that fits a word. -/
theorem wholeOf_false {n : Nat} (h : n < Word.size) :
    wholeOf false ((natDigits n).map fun c => digitValue (byte c)) = .ok (.integer n) := by
  have hv := digitsValue_natDigits n
  rw [wholeOf, significand_eq (by rw [hv]; exact h), hv]
  rfl

/-- Digits with a sign, as the literal of a number that fits a word. -/
theorem wholeOf_true {n : Nat} (h₀ : 0 < n) (h : n ≤ Word.half) :
    wholeOf true ((natDigits n).map fun c => digitValue (byte c)) =
      .ok (.integer (-(n : Int))) := by
  have hv := digitsValue_natDigits n
  have hlt : n < Word.size := Nat.lt_of_le_of_lt h (by decide)
  rw [wholeOf, significand_eq (by rw [hv]; exact hlt), hv]
  simp [h₀, h]

/-- A natural number does not start with a minus sign. -/
theorem readNumber_natDigits {n : Nat} {s : Bytes} :
    readNumber (Utf8.encodeChars (natDigits n) ++ s) =
      readDigits false (Utf8.encodeChars (natDigits n) ++ s) := by
  rw [encodeChars_digits fun _ => isDigit_of_mem_natDigits]
  cases hds : natDigits n with
  | nil => exact absurd hds Nat.toDigits_ne_nil
  | cons c cs =>
    have hc : c.isDigit = true := isDigit_of_mem_natDigits (hds ▸ List.mem_cons_self)
    have hne : byte c ≠ byte '-' := fun heq => by
      have hd := (byte_of_isDigit hc).2.1
      rw [heq] at hd
      exact absurd hd (by decide)
    rw [List.map_cons, List.cons_append, readNumber, if_neg hne]

/-- **An integer that fits 64 bits is read back.** -/
theorem readNumber_intDigits {i : Int} (hi : fitsWord i = true) {s : Bytes} (hs : EndsNumber s) :
    readNumber (Utf8.encodeChars (intDigits i) ++ s) = .ok (.integer i, s) := by
  rw [fitsWord, Bool.and_eq_true, decide_eq_true_eq, decide_eq_true_eq] at hi
  cases i with
  | ofNat n =>
    have hn : n < Word.size := by
      have := hi.2
      change (n : Int) < Word.size at this
      exact_mod_cast this
    rw [intDigits, readNumber_natDigits]
    exact readDigits_natDigits false n hs (wholeOf_false hn)
  | negSucc n =>
    have hn : n + 1 ≤ Word.half := by
      have := hi.1
      rw [Int.negSucc_eq] at this
      omega
    rw [intDigits, encodeChars_cons_ascii (by decide), List.cons_append, readNumber, if_pos rfl]
    refine readDigits_natDigits true (n + 1) hs ?_
    rw [wholeOf_true (Nat.succ_pos n) hn, Int.negSucc_eq]
    rfl

/-- The text of an integer starts with a digit or a minus sign. -/
theorem exists_encodeChars_intDigits (i : Int) :
    ∃ b r, Utf8.encodeChars (intDigits i) = b :: r ∧ (b = byte '-' ∨ isDigit b = true) := by
  cases i with
  | ofNat n =>
    have hall : ∀ c ∈ natDigits n, c.isDigit = true := fun _ => isDigit_of_mem_natDigits
    rw [intDigits, encodeChars_digits hall]
    cases hds : natDigits n with
    | nil => exact absurd hds Nat.toDigits_ne_nil
    | cons c cs =>
      have hc := byte_of_isDigit (hall c (hds ▸ List.mem_cons_self))
      exact ⟨byte c, cs.map byte, rfl, .inr hc.2.1⟩
  | negSucc n =>
    rw [intDigits, encodeChars_cons_ascii (by decide)]
    exact ⟨_, _, rfl, .inl rfl⟩

end Json

end ChangeCapture
