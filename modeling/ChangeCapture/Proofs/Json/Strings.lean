import ChangeCapture.Json.Printer
import ChangeCapture.Json.Reader
import ChangeCapture.Proofs.Text.Utf8

/-!
# The round trip of JSON strings

A string is read back from its quoted text, whatever stands after the closing quote. The reading
goes character by character: a plain character stands for itself, and each escape is undone.

## Main results

* `Json.readStringBytes_escapeChar` — one character is read back.
* `Json.readString_quote` — a string is read back, and the rest is left over.
-/

namespace ChangeCapture

namespace Json

/-! ### Characters of one byte -/

/-- An ASCII character is its own byte. -/
theorem utf8EncodeChar_eq_byte {c : Char} (h : c.toNat < 0x80) :
    String.utf8EncodeChar c = [byte c] := by
  rw [String.utf8EncodeChar, byte]
  have : c.val.toNat ≤ 0x7f := by
    change c.toNat ≤ 0x7f
    omega
  exact if_pos this

/-- A text that starts with an ASCII character starts with its byte. -/
theorem encodeChars_cons_ascii {c : Char} (h : c.toNat < 0x80) (cs : List Char) :
    Utf8.encodeChars (c :: cs) = byte c :: Utf8.encodeChars cs := by
  rw [Utf8.encodeChars_cons, utf8EncodeChar_eq_byte h]
  rfl

/-- Texts between commas: the first one, and then the others with a comma before each. -/
theorem intercalate_comma (l : List Char) (ls : List (List Char)) :
    [','].intercalate (l :: ls) = l ++ ls.flatMap (',' :: ·) := by
  induction ls generalizing l with
  | nil => simp [List.intercalate]
  | cons l' ls ih =>
    have h := ih l'
    simp only [List.intercalate] at h ⊢
    rw [List.intersperse_cons_cons, List.flatten_cons, List.flatten_cons, h]
    simp

/-- The byte of an ASCII character has its number. -/
theorem toNat_byte {c : Char} (h : c.toNat < 0x80) : (byte c).toNat = c.toNat :=
  Utf8.toNat_ofNat_of_lt (by omega)

/-! ### Plain bytes -/

/-- A byte that stands for itself inside a string. -/
def IsPlain (b : UInt8) : Prop :=
  b ≠ byte '"' ∧ b ≠ byte '\\' ∧ ¬ b < 0x20

/-- Two outcomes of reading a rest are the same with the same bytes before them. -/
theorem prepend_append (a b : Bytes) (p : Parse Bytes) :
    prepend (a ++ b) p = prepend a (prepend b p) := by
  cases p with
  | ok r => simp [prepend]
  | error f => rfl

/-- A plain byte is read as itself. -/
theorem readStringBytes_plain {b : UInt8} (h : IsPlain b) (s : Bytes) :
    readStringBytes 0 (b :: s) = prepend [b] (readStringBytes 0 s) := by
  obtain ⟨hq, hb, hc⟩ := h
  rw [readStringBytes, if_neg hq, if_neg hb, if_neg hc]

/-- Plain bytes are read as themselves. -/
theorem readStringBytes_plains {bs : Bytes} (h : ∀ b ∈ bs, IsPlain b) (s : Bytes) :
    readStringBytes 0 (bs ++ s) = prepend bs (readStringBytes 0 s) := by
  induction bs with
  | nil => cases hs : readStringBytes 0 s <;> simp [prepend, hs]
  | cons b bs ih =>
    rw [List.cons_append, readStringBytes_plain (h b List.mem_cons_self),
      ih fun b' hb' => h b' (List.mem_cons_of_mem _ hb'), ← prepend_append]
    rfl

/-- A byte that is neither of the two marks and no control byte is plain. -/
theorem isPlain_of_toNat {b : UInt8} (h₁ : b.toNat ≠ 0x22) (h₂ : b.toNat ≠ 0x5c)
    (h₃ : 0x20 ≤ b.toNat) : IsPlain b := by
  refine ⟨fun h => h₁ (h ▸ rfl), fun h => h₂ (h ▸ rfl), fun h => ?_⟩
  rw [UInt8.lt_iff_toNat_lt] at h
  exact Nat.not_lt.mpr h₃ h

/-- The bytes of a character that needs no escape are plain. -/
theorem isPlain_of_mem_utf8EncodeChar {c : Char}
    (h₁ : c ≠ '"') (h₂ : c ≠ '\\') (h₃ : 0x20 ≤ c.toNat)
    {b : UInt8} (hb : b ∈ String.utf8EncodeChar c) : IsPlain b := by
  have hv := Utf8.toNat_valid c
  have hn₁ : c.val.toNat ≠ 0x22 := fun h => h₁ (Char.ext (UInt32.toNat_inj.mp h))
  have hn₂ : c.val.toNat ≠ 0x5c := fun h => h₂ (Char.ext (UInt32.toNat_inj.mp h))
  change 0x20 ≤ c.val.toNat at h₃
  unfold String.utf8EncodeChar at hb
  generalize c.val.toNat = v at hb hv hn₁ hn₂ h₃
  have plain {n : Nat} (hn : n < 256) (h : n ≠ 0x22 ∧ n ≠ 0x5c ∧ 0x20 ≤ n) :
      IsPlain (UInt8.ofNat n) := by
    refine isPlain_of_toNat ?_ ?_ ?_ <;> rw [Utf8.toNat_ofNat_of_lt hn]
    exacts [h.1, h.2.1, h.2.2]
  dsimp only at hb
  split at hb
  · rw [List.mem_singleton] at hb
    exact hb ▸ plain (by omega) (by omega)
  split at hb
  · simp only [List.mem_cons, List.not_mem_nil, or_false] at hb
    rcases hb with rfl | rfl <;> exact plain (by omega) (by omega)
  split at hb
  · simp only [List.mem_cons, List.not_mem_nil, or_false] at hb
    rcases hb with rfl | rfl | rfl <;> exact plain (by omega) (by omega)
  · simp only [List.mem_cons, List.not_mem_nil, or_false] at hb
    rcases hb with rfl | rfl | rfl | rfl <;> exact plain (by omega) (by omega)

/-! ### Escapes -/

/-- The value of a lower-case digit in base sixteen. -/
theorem hexValue?_hexDigit : ∀ n, n < 16 → hexValue? (byte (hexDigit n)) = some n := by decide

/-- A digit in base sixteen is ASCII. -/
theorem hexDigit_lt : ∀ n, n < 16 → (hexDigit n).toNat < 0x80 := by decide

/-- An escape of two characters is undone. -/
theorem readStringBytes_short {c d : Char} (hd : d.toNat < 0x80)
    (h : ∀ s, readEscape (byte d :: s) = .ok (c, 1)) (s : Bytes) :
    readStringBytes 0 (Utf8.encodeChars ['\\', d] ++ s) =
      prepend (String.utf8EncodeChar c) (readStringBytes 0 s) := by
  rw [encodeChars_cons_ascii (by decide), encodeChars_cons_ascii hd]
  change readStringBytes 0 (byte '\\' :: byte d :: s) = _
  rw [readStringBytes, if_neg (by decide), if_pos rfl, h]
  rfl

/-- Four digits in base sixteen, of which the first two are zero, are read. -/
theorem readHex4_low {n : Nat} (h : n < 32) (s : Bytes) :
    readHex4 (byte '0' :: byte '0' :: byte (hexDigit (n / 16)) :: byte (hexDigit (n % 16)) :: s) =
      .ok n := by
  have h0 : hexValue? (byte '0') = some 0 := by decide
  rw [readHex4, h0, hexValue?_hexDigit _ (by omega), hexValue?_hexDigit _ (by omega)]
  exact congrArg Except.ok (by omega)

/-- An escape of a code unit that is no half of a pair. -/
theorem readEscape_of_unit {s : Bytes} {n : Nat} (hread : readHex4 s = .ok n)
    (hlow : isLowHalf n = false) (hhigh : isHighHalf n = false) :
    readEscape (byte 'u' :: s) = .ok (Char.ofNat n, 5) := by
  rw [readEscape, if_neg (by decide), if_neg (by decide), if_neg (by decide), if_neg (by decide),
    if_neg (by decide), if_neg (by decide), if_neg (by decide), if_neg (by decide), if_pos rfl,
    hread]
  simp only [hlow, hhigh, Bool.false_eq_true, if_false]

/-- The escape of a control character is undone. -/
theorem readStringBytes_control {c : Char} (h : c.toNat < 32) (s : Bytes) :
    readStringBytes 0
        (Utf8.encodeChars
          ['\\', 'u', '0', '0', hexDigit (c.toNat / 16), hexDigit (c.toNat % 16)] ++ s) =
      prepend (String.utf8EncodeChar c) (readStringBytes 0 s) := by
  have hu : readEscape (byte 'u' :: byte '0' :: byte '0' :: byte (hexDigit (c.toNat / 16)) ::
      byte (hexDigit (c.toNat % 16)) :: s) = .ok (c, 5) := by
    have hlow : isLowHalf c.toNat = false := by
      rw [isLowHalf]
      simp only [Bool.and_eq_false_iff, decide_eq_false_iff_not]
      omega
    have hhigh : isHighHalf c.toNat = false := by
      rw [isHighHalf]
      simp only [Bool.and_eq_false_iff, decide_eq_false_iff_not]
      omega
    rw [readEscape_of_unit (readHex4_low h s) hlow hhigh, Char.ofNat_toNat]
  rw [encodeChars_cons_ascii (by decide), encodeChars_cons_ascii (by decide),
    encodeChars_cons_ascii (by decide), encodeChars_cons_ascii (by decide),
    encodeChars_cons_ascii (hexDigit_lt _ (by omega)),
      encodeChars_cons_ascii (hexDigit_lt _ (by omega))]
  change readStringBytes 0 (byte '\\' :: byte 'u' :: _ :: _ :: _ :: _ :: s) = _
  rw [readStringBytes, if_neg (by decide), if_pos rfl, hu]
  rfl

/-- **One character of a string is read back.** -/
theorem readStringBytes_escapeChar (c : Char) (s : Bytes) :
    readStringBytes 0 (Utf8.encodeChars (escapeChar c) ++ s) =
      prepend (String.utf8EncodeChar c) (readStringBytes 0 s) := by
  unfold escapeChar
  split
  · next h =>
    subst h
    exact readStringBytes_short (by decide) (fun _ => rfl) s
  split
  · next h =>
    subst h
    exact readStringBytes_short (by decide) (fun _ => rfl) s
  split
  · next h =>
    subst h
    exact readStringBytes_short (by decide) (fun _ => rfl) s
  split
  · next h =>
    subst h
    exact readStringBytes_short (by decide) (fun _ => rfl) s
  split
  · next h =>
    subst h
    exact readStringBytes_short (by decide) (fun _ => rfl) s
  split
  · next h =>
    have hc : c = Char.ofNat 8 := by rw [← h, Char.ofNat_toNat]
    exact hc ▸ readStringBytes_short (by decide) (fun _ => rfl) s
  split
  · next h =>
    have hc : c = Char.ofNat 12 := by rw [← h, Char.ofNat_toNat]
    exact hc ▸ readStringBytes_short (by decide) (fun _ => rfl) s
  split
  · next h => exact readStringBytes_control h s
  · next h₁ h₂ _ _ _ _ _ h₃ =>
    have hbytes : Utf8.encodeChars [c] = String.utf8EncodeChar c := by simp [Utf8.encodeChars]
    rw [hbytes]
    exact readStringBytes_plains
      (fun b hb => isPlain_of_mem_utf8EncodeChar h₁ h₂ (by omega) hb) s

/-! ### Whole strings -/

/-- The characters of a string are read back up to the closing quote. -/
theorem readStringBytes_escaped (cs : List Char) (s : Bytes) :
    readStringBytes 0 (Utf8.encodeChars (cs.flatMap escapeChar) ++ byte '"' :: s) =
      .ok (Utf8.encodeChars cs, s) := by
  induction cs with
  | nil => rfl
  | cons c cs ih =>
    rw [List.flatMap_cons, Utf8.encodeChars_append, List.append_assoc,
      readStringBytes_escapeChar, ih,
      Utf8.encodeChars_cons]
    rfl

/-- The bytes of a quoted string. -/
theorem encodeChars_quote (t : String) :
    Utf8.encodeChars (quote t) =
      byte '"' :: (Utf8.encodeChars (t.toList.flatMap escapeChar) ++ [byte '"']) := by
  rw [quote, encodeChars_cons_ascii (by decide), Utf8.encodeChars_append]
  rfl

/-- **A string is read back** from what follows its opening quote. -/
theorem readString_quote (t : String) (s : Bytes) :
    readString (Utf8.encodeChars (t.toList.flatMap escapeChar) ++ byte '"' :: s) = .ok (t, s) := by
  rw [readString, readStringBytes_escaped]
  have : Utf8.decode (Utf8.encodeChars t.toList) = .ok t := Utf8.decode_encode t
  simp only [this]

end Json

end ChangeCapture
