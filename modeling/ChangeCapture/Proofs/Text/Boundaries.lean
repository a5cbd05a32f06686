import ChangeCapture.Proofs.Text.Utf8
import Mathlib.Data.Bool.Basic

/-!
# Where characters begin

Bytes are text exactly if they are the bytes of some characters. A character that stands whole among
the bytes of a text begins where one of the text's own characters does, so what stands before it and
what stands after it are texts too.

## Main definitions

* `Utf8.TextUpTo`: bytes that are a text followed by others.

## Main results

* `Utf8.isText_iff` — bytes are text exactly if characters spell them.
* `Utf8.isText_of_append` — a text is cut at a character into texts.
-/

namespace ChangeCapture

namespace Utf8

variable {s t r : Bytes} {cs : List Char}

/-! ### Decoding is sound -/

/-- The bytes of the character of a code point. -/
theorem utf8EncodeChar_ofNat {v : Nat} (h : v < 0xD800 ∨ 0xDFFF < v ∧ v < 0x110000) :
    String.utf8EncodeChar (Char.ofNat v) =
      if v ≤ 0x7F then [UInt8.ofNat v]
      else if v ≤ 0x7FF then [UInt8.ofNat (v / 64 % 0x20 + 0xC0), UInt8.ofNat (v % 0x40 + 0x80)]
      else if v ≤ 0xFFFF then
        [UInt8.ofNat (v / 4096 % 0x10 + 0xE0), UInt8.ofNat (v / 64 % 0x40 + 0x80),
          UInt8.ofNat (v % 0x40 + 0x80)]
      else
        [UInt8.ofNat (v / 262144 % 0x08 + 0xF0), UInt8.ofNat (v / 4096 % 0x40 + 0x80),
          UInt8.ofNat (v / 64 % 0x40 + 0x80), UInt8.ofNat (v % 0x40 + 0x80)] := by
  have hvalid : v.isValidChar := h
  have hval : (Char.ofNat v).val.toNat = v := by
    rw [Char.ofNat, dif_pos hvalid]
    rfl
  rw [String.utf8EncodeChar, hval]

/-- A byte is that of a number if it has its value. -/
theorem ofNat_eq (a : UInt8) {n : Nat} (h : n = a.toNat) : UInt8.ofNat n = a := by
  subst h
  exact UInt8.ofNat_toNat

/-- The width that a first byte announces, by its value. -/
theorem width_eq (a : UInt8) :
    width a =
      if a.toNat < 0x80 then 1 else if a.toNat < 0xC2 then 0 else if a.toNat < 0xE0 then 2
      else if a.toNat < 0xF0 then 3 else if a.toNat < 0xF5 then 4 else 0 := by
  simpa using width_ofNat a.toNat_lt

/-- The values of continuations. -/
theorem toNat_of_isTail {b : UInt8} (h : isTail b = true) : 0x80 ≤ b.toNat ∧ b.toNat < 0xC0 := by
  simpa [isTail, UInt8.lt_iff_toNat_lt, UInt8.le_iff_toNat_le] using h

/-- The values of second bytes, by those of the first. -/
theorem toNat_of_isSecond {a b : UInt8} (h : isSecond a b = true) :
    0x80 ≤ b.toNat ∧ b.toNat < 0xC0 ∧ (a.toNat = 0xE0 → 0xA0 ≤ b.toNat) ∧
      (a.toNat = 0xED → b.toNat < 0xA0) ∧ (a.toNat = 0xF0 → 0x90 ≤ b.toNat) ∧
      (a.toNat = 0xF4 → b.toNat < 0x90) := by
  have hsecond := isSecond_ofNat a.toNat_lt b.toNat_lt
  simp only [UInt8.ofNat_toNat, h] at hsecond
  grind

/-- A character of one byte is that byte. -/
theorem utf8EncodeChar_one {a : UInt8} (hw : width a = 1) :
    String.utf8EncodeChar (Char.ofNat a.toNat) = [a] := by
  have ha : a.toNat < 0x80 := by
    rw [width_eq] at hw
    grind
  rw [utf8EncodeChar_ofNat (by omega), if_pos (by omega), ofNat_eq a rfl]

/-- A character of two bytes has these bytes. -/
theorem utf8EncodeChar_two {a b : UInt8} (hw : width a = 2) (hb : isSecond a b = true) :
    String.utf8EncodeChar (scalar₂ a b) = [a, b] := by
  have ha : 0xC2 ≤ a.toNat ∧ a.toNat < 0xE0 := by
    rw [width_eq] at hw
    grind
  obtain ⟨hb₁, hb₂, -⟩ := toNat_of_isSecond hb
  rw [scalar₂, utf8EncodeChar_ofNat (by omega), if_neg (by omega), if_pos (by omega),
    ofNat_eq a (by omega), ofNat_eq b (by omega)]

/-- A character of three bytes has these bytes. -/
theorem utf8EncodeChar_three {a b c : UInt8} (hw : width a = 3) (hb : isSecond a b = true)
    (hc : isTail c = true) : String.utf8EncodeChar (scalar₃ a b c) = [a, b, c] := by
  have ha : 0xE0 ≤ a.toNat ∧ a.toNat < 0xF0 := by
    rw [width_eq] at hw
    grind
  obtain ⟨hb₁, hb₂, hlow, hhigh, -⟩ := toNat_of_isSecond hb
  obtain ⟨hc₁, hc₂⟩ := toNat_of_isTail hc
  rw [scalar₃, utf8EncodeChar_ofNat (by omega), if_neg (by omega), if_neg (by omega),
    if_pos (by omega), ofNat_eq a (by omega), ofNat_eq b (by omega), ofNat_eq c (by omega)]

/-- A character of four bytes has these bytes. -/
theorem utf8EncodeChar_four {a b c d : UInt8} (hw : width a = 4) (hb : isSecond a b = true)
    (hc : isTail c = true) (hd : isTail d = true) :
    String.utf8EncodeChar (scalar₄ a b c d) = [a, b, c, d] := by
  have ha : 0xF0 ≤ a.toNat ∧ a.toNat < 0xF5 := by
    rw [width_eq] at hw
    grind
  obtain ⟨hb₁, hb₂, -, -, hlow, hhigh⟩ := toNat_of_isSecond hb
  obtain ⟨hc₁, hc₂⟩ := toNat_of_isTail hc
  obtain ⟨hd₁, hd₂⟩ := toNat_of_isTail hd
  rw [scalar₄, utf8EncodeChar_ofNat (by omega), if_neg (by omega), if_neg (by omega),
    if_neg (by omega), ofNat_eq a (by omega), ofNat_eq b (by omega), ofNat_eq c (by omega),
    ofNat_eq d (by omega)]

/-- The bytes of a decoded character stand before those of the rest. -/
theorem encodeChars_of_push {c : Char} {x : Except Fault (List Char)} (h : push c x = .ok cs)
    (hc : String.utf8EncodeChar c = t) (hx : ∀ {cs'}, x = .ok cs' → encodeChars cs' = s) :
    encodeChars cs = t ++ s := by
  cases x with
  | error f => cases h
  | ok cs' =>
    obtain rfl := Except.ok.inj h
    rw [encodeChars_cons, hc, hx rfl]

/-- **What is decoded has the bytes it was decoded from.** -/
theorem encodeChars_of_decodeFrom {i : Nat} (h : decodeFrom i s = .ok cs) : encodeChars cs = s := by
  fun_induction decodeFrom i s generalizing cs
  case case1 =>
    obtain rfl := Except.ok.inj h
    rfl
  case case2 hw ih => exact encodeChars_of_push h (utf8EncodeChar_one hw) ih
  case case4 hw b s hb ih => exact encodeChars_of_push h (utf8EncodeChar_two hw hb) ih
  case case10 hw b c s hb hc ih =>
    exact encodeChars_of_push h (utf8EncodeChar_three hw (by simpa using hb) (by simpa using hc)) ih
  case case17 hw b c d s hb hc hd ih =>
    exact encodeChars_of_push h
      (utf8EncodeChar_four hw (by simpa using hb) (by simpa using hc) (by simpa using hd)) ih
  all_goals cases h

/-- **Bytes are text exactly if characters spell them.** -/
theorem isText_iff : isText s = true ↔ ∃ cs, encodeChars cs = s := by
  rw [isText, decodeChars]
  constructor
  · intro h
    split at h
    · exact ⟨_, encodeChars_of_decodeFrom ‹_›⟩
    · cases h
  · rintro ⟨cs, rfl⟩
    rw [decodeFrom_encodeChars]

/-- What is decoded is encoded again. -/
theorem encode_of_decode {text : String} (h : decode s = .ok text) : encode text = s := by
  rw [decode, decodeChars] at h
  split at h
  · obtain rfl := Except.ok.inj h
    rw [encode, String.toList_ofList]
    exact encodeChars_of_decodeFrom ‹_›
  · cases h

/-- Bytes are decoded to the text that they encode, and to no other. -/
theorem decode_eq_ok {text : String} : decode s = .ok text ↔ encode text = s := by
  refine ⟨encode_of_decode, ?_⟩
  rintro rfl
  exact decode_encode text

/-- Text is decoded. -/
theorem exists_decode (h : isText s = true) : ∃ text, decode s = .ok text ∧ encode text = s := by
  obtain ⟨cs, rfl⟩ := isText_iff.mp h
  exact ⟨String.ofList cs, by rw [decode, decodeChars, decodeFrom_encodeChars],
    by rw [encode, String.toList_ofList]⟩

/-! ### Texts side by side -/

/-- One text after another is a text. -/
theorem isText_append (hs : isText s = true) (ht : isText t = true) : isText (s ++ t) = true := by
  obtain ⟨cs, rfl⟩ := isText_iff.mp hs
  obtain ⟨cs', rfl⟩ := isText_iff.mp ht
  exact isText_iff.mpr ⟨cs ++ cs', encodeChars_append cs cs'⟩

/-- ASCII is text. -/
theorem isText_of_ascii (h : ∀ b ∈ s, b < 0x80) : isText s = true := by
  induction s with
  | nil => rfl
  | cons b s ih =>
    have hb : width b = 1 := by
      rw [width, if_pos (h b List.mem_cons_self)]
    refine isText_append (s := [b]) (isText_iff.mpr ⟨[Char.ofNat b.toNat], ?_⟩)
      (ih fun b hb => h b (List.mem_cons_of_mem _ hb))
    rw [encodeChars_cons, utf8EncodeChar_one hb]
    rfl

/-- The bytes of a character are some. -/
theorem exists_utf8EncodeChar (c : Char) : ∃ x v, String.utf8EncodeChar c = x :: v := by
  refine List.exists_cons_of_ne_nil ?_
  rw [← List.length_pos_iff, String.length_utf8EncodeChar]
  exact c.utf8Size_pos

/-- No byte of a character but its first is the first of another. -/
theorem eq_nil_of_first {c d : Char} {x : UInt8} {u v : Bytes}
    (hd : String.utf8EncodeChar d = s ++ x :: u) (hc : String.utf8EncodeChar c = x :: v) :
    s = [] := by
  have hlt : s.length < (String.utf8EncodeChar d).length := by simp [hd]
  have hpos : 0 < (String.utf8EncodeChar c).length := by simp [hc]
  have hx : (String.utf8EncodeChar d)[s.length] = x := by simp [hd]
  have hfirst : (String.utf8EncodeChar c)[0] = x := by simp [hc]
  have h : x.IsUTF8FirstByte := hfirst ▸ UInt8.isUTF8FirstByte_getElem_zero_utf8EncodeChar
  rw [← hx, UInt8.isUTF8FirstByte_getElem_utf8EncodeChar] at h
  exact List.length_eq_zero_iff.mp h

/-- What follows a first character of a text is a text. -/
theorem isText_of_first {c : Char} (h : isText (String.utf8EncodeChar c ++ t) = true) :
    isText t = true := by
  rw [isText, decodeChars, decodeFrom_utf8EncodeChar] at h
  split at h
  · rename_i cs hcs
    cases hrest : decodeFrom (0 + (String.utf8EncodeChar c).length) t with
    | error f =>
      rw [hrest] at hcs
      cases hcs
    | ok cs' => exact isText_iff.mpr ⟨cs', encodeChars_of_decodeFrom hrest⟩
  · cases h

/-- **A text is cut at a character into texts.** -/
theorem isText_of_append {c : Char} (h : isText (s ++ (String.utf8EncodeChar c ++ t)) = true) :
    isText s = true ∧ isText t = true := by
  obtain ⟨cs, hcs⟩ := isText_iff.mp h
  clear h
  induction cs generalizing s with
  | nil =>
    obtain ⟨x, v, hc⟩ := exists_utf8EncodeChar c
    simp [encodeChars, hc] at hcs
  | cons d cs ih =>
    rw [encodeChars_cons] at hcs
    have hd : isText (String.utf8EncodeChar d) = true :=
      isText_iff.mpr ⟨[d], by rw [encodeChars_cons]; exact List.append_nil _⟩
    rcases List.append_eq_append_iff.mp hcs with ⟨a, rfl, hrest⟩ | ⟨a, ha, hrest⟩
    · obtain ⟨hs, ht⟩ := ih hrest
      exact ⟨isText_append hd hs, ht⟩
    · cases a with
      | nil =>
        rw [List.append_nil] at ha
        exact ⟨ha ▸ hd, (ih (s := []) hrest.symm).2⟩
      | cons x a =>
        -- The character begins in the middle of `d`, so it begins where `d` does.
        obtain ⟨y, v, hc⟩ := exists_utf8EncodeChar c
        obtain rfl : y = x := by
          rw [hc] at hrest
          exact (List.cons.inj hrest).1
        obtain rfl := eq_nil_of_first ha hc
        refine ⟨rfl, isText_of_first (c := c) (isText_iff.mpr ⟨d :: cs, ?_⟩)⟩
        rw [encodeChars_cons, hcs, List.nil_append]

/-! ### Text up to a point -/

/-- **A text, and others after it.** -/
def TextUpTo (s r : Bytes) : Prop :=
  ∃ t, s = t ++ r ∧ isText t = true

namespace TextUpTo

/-- No text comes before all of the bytes. -/
theorem refl (s : Bytes) : TextUpTo s s :=
  ⟨[], rfl, rfl⟩

/-- Text is followed by more text. -/
theorem trans {s t r : Bytes} (h : TextUpTo s t) (h' : TextUpTo t r) : TextUpTo s r := by
  obtain ⟨a, rfl, ha⟩ := h
  obtain ⟨b, rfl, hb⟩ := h'
  exact ⟨a ++ b, (List.append_assoc a b r).symm, isText_append ha hb⟩

/-- One character of ASCII is text. -/
theorem cons {b : UInt8} (hb : b < 0x80) (h : TextUpTo s r) : TextUpTo (b :: s) r :=
  trans ⟨[b], rfl, isText_of_ascii (by simpa using hb)⟩ h

/-- What is skipped is text if it is ASCII. -/
theorem dropWhile {p : UInt8 → Bool} (hp : ∀ b, p b = true → b < 0x80) (s : Bytes) :
    TextUpTo s (s.dropWhile p) := by
  induction s with
  | nil => exact refl []
  | cons b s ih =>
    rw [List.dropWhile_cons]
    split
    · exact cons (hp b ‹_›) ih
    · exact refl _

/-- Text up to nothing is text. -/
theorem isText (h : TextUpTo s []) : Utf8.isText s = true := by
  obtain ⟨t, rfl, ht⟩ := h
  rwa [List.append_nil]

end TextUpTo

end Utf8

end ChangeCapture
