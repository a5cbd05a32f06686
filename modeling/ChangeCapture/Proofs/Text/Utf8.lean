import ChangeCapture.Text.Utf8
import Mathlib.Logic.Function.Basic

/-!
# The round trip of UTF-8

Decoding gives back every text from its bytes, and so two texts with the same bytes are the same
text.

## Main results

* `Utf8.decode_encode` — decoding undoes encoding.
* `Utf8.encodeChars_injective` — the bytes determine the characters.
-/

namespace ChangeCapture

namespace Utf8

/-! ### One character -/

/-- The value of the byte of a small number. -/
theorem toNat_ofNat_of_lt {n : Nat} (h : n < 256) : (UInt8.ofNat n).toNat = n := by
  rw [UInt8.toNat_ofNat', Nat.mod_eq_of_lt h]

/-- The width that a first byte announces. -/
theorem width_ofNat {n : Nat} (h : n < 256) :
    width (UInt8.ofNat n) =
      if n < 0x80 then 1 else if n < 0xC2 then 0 else if n < 0xE0 then 2
      else if n < 0xF0 then 3 else if n < 0xF5 then 4 else 0 := by
  simp [width, UInt8.lt_iff_toNat_lt, toNat_ofNat_of_lt h]

/-- Which bytes are continuations. -/
theorem isTail_ofNat {n : Nat} (h : n < 256) :
    isTail (UInt8.ofNat n) = (decide (0x80 ≤ n) && decide (n < 0xC0)) := by
  simp [isTail, UInt8.lt_iff_toNat_lt, UInt8.le_iff_toNat_le, toNat_ofNat_of_lt h]

/-- The code point of a character is no surrogate and below the last one. -/
theorem toNat_valid (c : Char) :
    c.val.toNat < 0xD800 ∨ (0xDFFF < c.val.toNat ∧ c.val.toNat < 0x110000) := by
  have := c.valid
  simpa [UInt32.isValidChar, Nat.isValidChar] using this

/-- The character of its own code point. -/
theorem ofNat_val (c : Char) {n : Nat} (h : n = c.val.toNat) : Char.ofNat n = c := by
  subst h
  exact Char.ofNat_toNat c

/-- Which bytes may come second. -/
theorem isSecond_ofNat {a b : Nat} (ha : a < 256) (hb : b < 256) :
    isSecond (UInt8.ofNat a) (UInt8.ofNat b) =
      if a = 0xE0 then decide (0xA0 ≤ b) && decide (b < 0xC0)
      else if a = 0xED then decide (0x80 ≤ b) && decide (b < 0xA0)
      else if a = 0xF0 then decide (0x90 ≤ b) && decide (b < 0xC0)
      else if a = 0xF4 then decide (0x80 ≤ b) && decide (b < 0x90)
      else decide (0x80 ≤ b) && decide (b < 0xC0) := by
  have heq (k : Nat) (hk : k < 256) : (UInt8.ofNat a = UInt8.ofNat k) ↔ a = k := by
    rw [← UInt8.toNat_inj, toNat_ofNat_of_lt ha, toNat_ofNat_of_lt hk]
  have e0 := heq 0xE0 (by omega)
  have ed := heq 0xED (by omega)
  have f0 := heq 0xF0 (by omega)
  have f4 := heq 0xF4 (by omega)
  simp only [UInt8.reduceOfNat] at e0 ed f0 f4
  simp [isSecond, isTail_ofNat hb, UInt8.lt_iff_toNat_lt, UInt8.le_iff_toNat_le,
    toNat_ofNat_of_lt hb, e0, ed, f0, f4]

/-- A character of one byte is read. -/
theorem decodeFrom_one {a : UInt8} (i : Nat) (s : Bytes) (hw : width a = 1) :
    decodeFrom i (a :: s) = push (Char.ofNat a.toNat) (decodeFrom (i + 1) s) := by
  rw [decodeFrom.eq_def]
  exact if_pos hw

/-- A character of two bytes is read. -/
theorem decodeFrom_two {a b : UInt8} (i : Nat) (s : Bytes) (hw : width a = 2)
    (hb : isSecond a b = true) :
    decodeFrom i (a :: b :: s) = push (scalar₂ a b) (decodeFrom (i + 2) s) := by
  simp [decodeFrom, hw, hb]

/-- A character of three bytes is read. -/
theorem decodeFrom_three {a b c : UInt8} (i : Nat) (s : Bytes) (hw : width a = 3)
    (hb : isSecond a b = true) (hc : isTail c = true) :
    decodeFrom i (a :: b :: c :: s) = push (scalar₃ a b c) (decodeFrom (i + 3) s) := by
  simp [decodeFrom, hw, hb, hc]

/-- A character of four bytes is read. -/
theorem decodeFrom_four {a b c d : UInt8} (i : Nat) (s : Bytes) (hw : width a = 4)
    (hb : isSecond a b = true) (hc : isTail c = true) (hd : isTail d = true) :
    decodeFrom i (a :: b :: c :: d :: s) = push (scalar₄ a b c d) (decodeFrom (i + 4) s) := by
  simp [decodeFrom, hw, hb, hc, hd]

/-- **A character is read off its bytes**, whatever follows. -/
theorem decodeFrom_utf8EncodeChar (c : Char) (i : Nat) (s : Bytes) :
    decodeFrom i (String.utf8EncodeChar c ++ s) =
      push c (decodeFrom (i + (String.utf8EncodeChar c).length) s) := by
  have hc := toNat_valid c
  unfold String.utf8EncodeChar
  generalize hv : c.val.toNat = v at hc ⊢
  dsimp only
  split
  · refine (decodeFrom_one i s ?_).trans ?_
    · rw [width_ofNat (by omega), if_pos (by omega)]
    · rw [toNat_ofNat_of_lt (by omega), ofNat_val c hv.symm]
      rfl
  split
  · refine (decodeFrom_two i s ?_ ?_).trans ?_
    · rw [width_ofNat (by omega)]
      grind
    · rw [isSecond_ofNat (by omega) (by omega)]
      grind
    · rw [scalar₂, toNat_ofNat_of_lt (by omega), toNat_ofNat_of_lt (by omega),
        ofNat_val c (by omega)]
      rfl
  split
  · refine (decodeFrom_three i s ?_ ?_ ?_).trans ?_
    · rw [width_ofNat (by omega)]
      grind
    · rw [isSecond_ofNat (by omega) (by omega)]
      grind
    · rw [isTail_ofNat (by omega)]
      grind
    · rw [scalar₃, toNat_ofNat_of_lt (by omega), toNat_ofNat_of_lt (by omega),
        toNat_ofNat_of_lt (by omega), ofNat_val c (by omega)]
      rfl
  · refine (decodeFrom_four i s ?_ ?_ ?_ ?_).trans ?_
    · rw [width_ofNat (by omega)]
      grind
    · rw [isSecond_ofNat (by omega) (by omega)]
      grind
    · rw [isTail_ofNat (by omega)]
      grind
    · rw [isTail_ofNat (by omega)]
      grind
    · rw [scalar₄, toNat_ofNat_of_lt (by omega), toNat_ofNat_of_lt (by omega),
        toNat_ofNat_of_lt (by omega), toNat_ofNat_of_lt (by omega), ofNat_val c (by omega)]
      rfl

/-! ### Whole texts -/

/-- The characters of an encoded list are read back, wherever it stands. -/
theorem decodeFrom_encodeChars (i : Nat) (cs : List Char) :
    decodeFrom i (encodeChars cs) = .ok cs := by
  induction cs generalizing i with
  | nil => rfl
  | cons c cs ih =>
    rw [encodeChars, List.flatMap_cons, decodeFrom_utf8EncodeChar]
    have := ih (i + (String.utf8EncodeChar c).length)
    rw [encodeChars] at this
    rw [this]
    rfl

/-- **Decoding undoes encoding.** -/
theorem decode_encode (s : String) : decode (encode s) = .ok s := by
  rw [decode, encode, decodeChars, decodeFrom_encodeChars]
  exact congrArg Except.ok String.ofList_toList

/-- The bytes determine the characters. -/
theorem encodeChars_injective : Function.Injective encodeChars := by
  intro cs cs' h
  have hcs := decodeFrom_encodeChars 0 cs
  rw [h, decodeFrom_encodeChars] at hcs
  exact (Except.ok.inj hcs).symm

/-- The bytes of a concatenation. -/
theorem encodeChars_append (cs cs' : List Char) :
    encodeChars (cs ++ cs') = encodeChars cs ++ encodeChars cs' :=
  List.flatMap_append

/-- The bytes of a first character stand first. -/
theorem encodeChars_cons (c : Char) (cs : List Char) :
    encodeChars (c :: cs) = String.utf8EncodeChar c ++ encodeChars cs :=
  List.flatMap_cons

end Utf8

end ChangeCapture
