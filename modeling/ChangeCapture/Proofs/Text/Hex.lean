import ChangeCapture.Proofs.Json.Strings
import ChangeCapture.Text.Hex
import Mathlib.Data.List.Induction
import Mathlib.Data.String.Basic

/-!
# The round trip of hexadecimal text

Bytes are read back from their digits, the digits keep the order of the bytes, and a quoted text of
digits needs no escapes.

A text is read exactly if it is the digits of some bytes in either case, that is, if it is an even
number of digits.

## Main definitions

* `Hex.isDigit`, `Hex.IsHex`: digits in either case, and texts of an even number of them.

## Main results

* `Hex.decode_encode` — decoding undoes encoding.
* `Hex.decode_eq_ok` — what is decoded is, in lower case, what is encoded.
* `Hex.exists_decode_iff` — what can be decoded.
* `Hex.encode_lt` — the digits keep the order.
-/

namespace ChangeCapture

namespace Hex

/-! ### Digits -/

/-- The value of a digit is the number it was written for. -/
theorem value?_digit : ∀ n < 16, value? (Json.byte (digit n)) = some n := by decide

/-- A digit is a character of one byte, and no mark of a quoted text. -/
theorem digit_plain : ∀ n < 16, (digit n).toNat < 0x80 ∧ Json.escapeChar (digit n) = [digit n] := by
  decide

/-- Greater numbers have greater digits. -/
theorem digit_lt : ∀ m < 16, ∀ n < 16, m < n → digit m < digit n := by decide

/-- The two halves of a byte. -/
theorem halves_lt (b : UInt8) : b.toNat / 16 < 16 ∧ b.toNat % 16 < 16 := by
  have := b.toNat_lt
  omega

/-- The digits of a byte and those of the bytes after it. -/
theorem encodeChars_cons (b : UInt8) (s : Bytes) :
    encodeChars (b :: s) = digit (b.toNat / 16) :: digit (b.toNat % 16) :: encodeChars s := rfl

/-- The digits of a byte are one byte each. -/
theorem encodeChars_bytes (b : UInt8) (s : Bytes) :
    Utf8.encodeChars (encodeChars (b :: s)) =
      Json.byte (digit (b.toNat / 16)) :: Json.byte (digit (b.toNat % 16)) ::
        Utf8.encodeChars (encodeChars s) := by
  obtain ⟨hi, lo⟩ := halves_lt b
  rw [encodeChars_cons, Json.encodeChars_cons_ascii (digit_plain _ hi).1,
    Json.encodeChars_cons_ascii (digit_plain _ lo).1]

/-! ### Reading -/

/-- Bytes are read back from their digits, wherever these stand. -/
theorem decodeFrom_encodeChars (i : Nat) (s : Bytes) :
    decodeFrom i (Utf8.encodeChars (encodeChars s)) = .ok s := by
  induction s generalizing i with
  | nil => rfl
  | cons b s ih =>
    obtain ⟨hi, lo⟩ := halves_lt b
    have hb : UInt8.ofNat (b.toNat / 16 * 16 + b.toNat % 16) = b := by
      rw [Nat.div_add_mod', UInt8.ofNat_toNat]
    rw [encodeChars_bytes, decodeFrom, value?_digit _ hi, value?_digit _ lo, ih]
    exact congrArg (fun b => Except.ok (b :: s)) hb

/-- There are two digits for each byte. -/
theorem length_encodeChars (s : Bytes) :
    (Utf8.encodeChars (encodeChars s)).length = 2 * s.length := by
  induction s with
  | nil => rfl
  | cons b s ih =>
    rw [encodeChars_bytes, List.length_cons, List.length_cons, ih, List.length_cons]
    omega

/-- **Decoding undoes encoding.** -/
theorem decode_encode (s : Bytes) : decode (encode s) = .ok s := by
  have hs : Utf8.encode (encode s) = Utf8.encodeChars (encodeChars s) := by
    rw [Utf8.encode, encode, String.toList_ofList]
  have heven : ¬ (2 * s.length) % 2 = 1 := by omega
  rw [decode, hs, decodeBytes, length_encodeChars, if_neg heven, decodeFrom_encodeChars]

/-! ### What is read -/

/-- A digit in either case. -/
def isDigit (c : Char) : Bool :=
  ('0' ≤ c && c ≤ '9') || ('a' ≤ c && c ≤ 'f') || ('A' ≤ c && c ≤ 'F')

/-- **A text in hexadecimal**: an even number of digits, in either case. -/
def IsHex (text : String) : Prop :=
  text.toList.length % 2 = 0 ∧ ∀ c ∈ text.toList, isDigit c = true

instance : DecidablePred IsHex := fun text =>
  decidable_of_iff (text.toList.length % 2 = 0 ∧ text.toList.all isDigit = true)
    (and_congr_right fun _ => List.all_eq_true)

/-- A byte of ASCII has the value of the digit that its character is in lower case. -/
theorem value?_ascii : ∀ n < 128, ∀ x < 16,
    (Char.ofNat n).toLower = digit x ↔ value? (UInt8.ofNat n) = some x := by decide

/-- The digits of ASCII. -/
theorem isDigit_ascii : ∀ n < 128, isDigit (Char.ofNat n) = (value? (UInt8.ofNat n)).isSome := by
  decide

/-- A digit has one of sixteen values. -/
theorem lt_of_value? {b : UInt8} {x : Nat} (h : value? b = some x) : x < 16 := by
  simp only [value?, Bool.and_eq_true, decide_eq_true_eq, UInt8.le_iff_toNat_le] at h
  split_ifs at h with h₁ h₂ h₃ <;> obtain rfl := Option.some.inj h
  · exact Nat.lt_of_le_of_lt (Nat.sub_le_sub_right h₁.2 _) (by decide)
  · exact Nat.lt_of_le_of_lt (Nat.sub_le_sub_right h₂.2 _) (by decide)
  · exact Nat.lt_of_le_of_lt (Nat.sub_le_sub_right h₃.2 _) (by decide)

/-- A byte beyond ASCII is no digit. -/
theorem value?_of_le {b : UInt8} (h : 0x80 ≤ b.toNat) : value? b = none := by
  simp only [value?, Bool.and_eq_true, decide_eq_true_eq, UInt8.le_iff_toNat_le]
  rw [if_neg fun hle => absurd (Nat.le_trans h hle.2) (by decide),
    if_neg fun hle => absurd (Nat.le_trans h hle.2) (by decide),
    if_neg fun hle => absurd (Nat.le_trans h hle.2) (by decide)]

/-- A character beyond ASCII has more than one byte, and the first is no digit. -/
theorem exists_bytes_of_le {c : Char} (h : 0x80 ≤ c.toNat) :
    ∃ x y v, String.utf8EncodeChar c = x :: y :: v ∧ value? x = none := by
  change 0x80 ≤ c.val.toNat at h
  have hv := Utf8.toNat_valid c
  unfold String.utf8EncodeChar
  generalize c.val.toNat = v at h hv
  have first {n : Nat} (hn : n < 256) (hle : 0x80 ≤ n) : value? (UInt8.ofNat n) = none :=
    value?_of_le (by rwa [Utf8.toNat_ofNat_of_lt hn])
  dsimp only
  split
  · omega
  split
  · exact ⟨_, _, _, rfl, first (by omega) (by omega)⟩
  split
  · exact ⟨_, _, _, rfl, first (by omega) (by omega)⟩
  · exact ⟨_, _, _, rfl, first (by omega) (by omega)⟩

/-- A character beyond ASCII is no digit, and has no case. -/
theorem not_digit_of_le {c : Char} (h : 0x80 ≤ c.toNat) :
    isDigit c = false ∧ ∀ x < 16, c.toLower ≠ digit x := by
  have above : ∀ d : Char, d.toNat < 0x80 → ¬ c ≤ d := by
    intro d hd hle
    have hle' : c.toNat ≤ d.toNat := hle
    omega
  have hlower : c.toLower = c := dif_neg fun hle => above 'Z' (by decide) hle.2
  refine ⟨?_, fun x hx heq => ?_⟩
  · simp [isDigit, above '9' (by decide), above 'f' (by decide), above 'F' (by decide)]
  · rw [← hlower, heq] at h
    exact Nat.not_le.mpr (digit_plain x hx).1 h

/-- A byte of ASCII has the value of the digit that its character is in lower case. -/
theorem value?_byte {c : Char} (h : c.toNat < 0x80) {x : Nat} :
    value? (Json.byte c) = some x ↔ x < 16 ∧ c.toLower = digit x := by
  have hiff := fun hx => value?_ascii c.toNat h x hx
  rw [Char.ofNat_toNat] at hiff
  exact ⟨fun hx => ⟨lt_of_value? hx, (hiff (lt_of_value? hx)).mpr hx⟩,
    fun hx => (hiff hx.1).mp hx.2⟩

/-- Two bytes are read as one. -/
theorem decodeFrom_eq_ok_cons {i : Nat} {a b : UInt8} {s t : Bytes} :
    decodeFrom i (a :: b :: s) = .ok t ↔ ∃ x y rest, value? a = some x ∧ value? b = some y ∧
      decodeFrom (i + 2) s = .ok rest ∧ t = UInt8.ofNat (x * 16 + y) :: rest := by
  rw [decodeFrom]
  constructor
  · intro h
    split at h
    · cases h
    · cases h
    · rename_i x y hx hy
      split at h
      · rename_i rest hrest
        exact ⟨x, y, rest, hx, hy, hrest, (Except.ok.inj h).symm⟩
      · cases h
  · rintro ⟨x, y, rest, hx, hy, hrest, rfl⟩
    rw [hx, hy]
    dsimp only
    rw [hrest]

/-- **Two characters are read** if they are digits, in either case, and so is what follows. -/
theorem decodeFrom_two {i : Nat} {c d : Char} {cs : List Char} {s : Bytes} :
    decodeFrom i (Utf8.encodeChars (c :: d :: cs)) = .ok s ↔
      ∃ x y rest, (x < 16 ∧ c.toLower = digit x) ∧ (y < 16 ∧ d.toLower = digit y) ∧
        decodeFrom (i + 2) (Utf8.encodeChars cs) = .ok rest ∧
          s = UInt8.ofNat (x * 16 + y) :: rest := by
  by_cases hc : c.toNat < 0x80
  · rw [Json.encodeChars_cons_ascii hc]
    by_cases hd : d.toNat < 0x80
    · rw [Json.encodeChars_cons_ascii hd, decodeFrom_eq_ok_cons]
      simp only [value?_byte hc, value?_byte hd]
    · obtain ⟨a, b, v, hbytes, ha⟩ := exists_bytes_of_le (Nat.le_of_not_lt hd)
      rw [Utf8.encodeChars_cons, hbytes, List.cons_append, decodeFrom_eq_ok_cons, ha]
      have hno := (not_digit_of_le (Nat.le_of_not_lt hd)).2
      constructor
      · rintro ⟨_, _, _, -, ⟨⟩, -⟩
      · rintro ⟨_, y, _, -, ⟨hy, hdigit⟩, -⟩
        exact absurd hdigit (hno y hy)
  · obtain ⟨a, b, v, hbytes, ha⟩ := exists_bytes_of_le (Nat.le_of_not_lt hc)
    rw [Utf8.encodeChars_cons, hbytes, List.cons_append, List.cons_append, decodeFrom_eq_ok_cons,
      ha]
    have hno := (not_digit_of_le (Nat.le_of_not_lt hc)).2
    constructor
    · rintro ⟨_, _, _, ⟨⟩, -⟩
    · rintro ⟨x, _, _, ⟨hx, hdigit⟩, -⟩
      exact absurd hdigit (hno x hx)

/-- A character alone is not read. -/
theorem decodeFrom_one (i : Nat) (c : Char) (s : Bytes) :
    decodeFrom i (Utf8.encodeChars [c]) ≠ .ok s := by
  by_cases hc : c.toNat < 0x80
  · rw [Json.encodeChars_cons_ascii hc]
    rintro ⟨⟩
  · obtain ⟨a, b, v, hbytes, ha⟩ := exists_bytes_of_le (Nat.le_of_not_lt hc)
    rw [Utf8.encodeChars_cons, hbytes, List.cons_append, List.cons_append, Ne,
      decodeFrom_eq_ok_cons, ha]
    rintro ⟨_, _, _, ⟨⟩, -⟩

/-- The digits of a byte of two halves. -/
theorem encodeChars_halves {x y : Nat} (hx : x < 16) (hy : y < 16) (s : Bytes) :
    encodeChars (UInt8.ofNat (x * 16 + y) :: s) = digit x :: digit y :: encodeChars s := by
  rw [encodeChars_cons, Utf8.toNat_ofNat_of_lt (by omega)]
  rw [show (x * 16 + y) / 16 = x by omega, show (x * 16 + y) % 16 = y by omega]

/-- One character is not the digits of any bytes. -/
theorem singleton_ne_encodeChars (c : Char) (s : Bytes) : [c] ≠ encodeChars s := by
  intro h
  cases s with
  | nil => cases h
  | cons b s => exact absurd (List.cons.inj h).2 (List.cons_ne_nil _ _).symm

/-- **What is read is, in lower case, the digits of what it stands for.** -/
theorem decodeFrom_eq_ok (i : Nat) (cs : List Char) (s : Bytes) :
    decodeFrom i (Utf8.encodeChars cs) = .ok s ↔ cs.map Char.toLower = encodeChars s := by
  induction cs using List.twoStepInduction generalizing i s with
  | nil =>
    cases s with
    | nil => exact ⟨fun _ => rfl, fun _ => rfl⟩
    | cons b s => exact ⟨by rintro ⟨⟩, by rintro ⟨⟩⟩
  | singleton c =>
    exact ⟨fun h => absurd h (decodeFrom_one i c s),
      fun h => absurd h (singleton_ne_encodeChars _ s)⟩
  | cons_cons c d cs ih _ =>
    rw [decodeFrom_two, List.map_cons, List.map_cons]
    constructor
    · rintro ⟨x, y, rest, ⟨hx, hc⟩, ⟨hy, hd⟩, hrest, rfl⟩
      rw [encodeChars_halves hx hy, hc, hd, (ih _ _).mp hrest]
    · intro h
      cases s with
      | nil => cases h
      | cons b s =>
        obtain ⟨hhi, hlo⟩ := halves_lt b
        obtain ⟨hc, hrest⟩ := List.cons.inj h
        obtain ⟨hd, hrest⟩ := List.cons.inj hrest
        refine ⟨_, _, s, ⟨hhi, hc⟩, ⟨hlo, hd⟩, (ih _ _).mpr hrest, ?_⟩
        rw [Nat.div_add_mod', UInt8.ofNat_toNat]

/-- Only an even number of bytes is read. -/
theorem length_of_decodeFrom {i : Nat} {s t : Bytes} (h : decodeFrom i s = .ok t) :
    s.length = 2 * t.length := by
  induction s using List.twoStepInduction generalizing i t with
  | nil =>
    obtain rfl := Except.ok.inj h
    rfl
  | singleton a => cases h
  | cons_cons a b s ih _ =>
    obtain ⟨x, y, rest, -, -, hrest, rfl⟩ := decodeFrom_eq_ok_cons.mp h
    rw [List.length_cons, List.length_cons, ih hrest, List.length_cons]
    omega

/-- **A text is decoded to the bytes whose digits it is in lower case.** -/
theorem decode_eq_ok {text : String} {s : Bytes} :
    decode text = .ok s ↔ text.toList.map Char.toLower = encodeChars s := by
  rw [← decodeFrom_eq_ok 0, decode, Utf8.encode, decodeBytes]
  split
  · rename_i hodd
    refine ⟨by rintro ⟨⟩, fun h => ?_⟩
    rw [length_of_decodeFrom h] at hodd
    omega
  · rfl

/-- A digit is a digit in lower case. -/
theorem isDigit_iff {c : Char} : isDigit c = true ↔ ∃ x < 16, c.toLower = digit x := by
  by_cases hc : c.toNat < 0x80
  · have hdigit := isDigit_ascii c.toNat hc
    rw [Char.ofNat_toNat] at hdigit
    rw [hdigit, Option.isSome_iff_exists]
    exact exists_congr fun x => value?_byte hc
  · obtain ⟨hno, hnone⟩ := not_digit_of_le (Nat.le_of_not_lt hc)
    rw [hno]
    refine ⟨nofun, ?_⟩
    rintro ⟨x, hx, hdigit⟩
    exact absurd hdigit (hnone x hx)

/-- **What can be decoded**: an even number of digits, in either case. -/
theorem exists_decode_iff {text : String} : (∃ s, decode text = .ok s) ↔ IsHex text := by
  simp only [decode_eq_ok, IsHex]
  induction text.toList using List.twoStepInduction with
  | nil => exact ⟨fun _ => ⟨rfl, by simp⟩, fun _ => ⟨[], rfl⟩⟩
  | singleton c =>
    constructor
    · rintro ⟨s, h⟩
      exact absurd h (singleton_ne_encodeChars _ s)
    · rintro ⟨h, -⟩
      cases h
  | cons_cons c d cs ih _ =>
    rw [List.length_cons, List.length_cons, Nat.add_assoc, Nat.add_mod_right,
      List.forall_mem_cons, List.forall_mem_cons, isDigit_iff, isDigit_iff]
    constructor
    · rintro ⟨s, h⟩
      cases s with
      | nil => cases h
      | cons b s =>
        obtain ⟨hhi, hlo⟩ := halves_lt b
        obtain ⟨hc, hrest⟩ := List.cons.inj h
        obtain ⟨hd, hrest⟩ := List.cons.inj hrest
        obtain ⟨heven, hdigits⟩ := ih.mp ⟨s, hrest⟩
        exact ⟨heven, ⟨_, hhi, hc⟩, ⟨_, hlo, hd⟩, hdigits⟩
    · rintro ⟨heven, ⟨x, hx, hc⟩, ⟨y, hy, hd⟩, hdigits⟩
      obtain ⟨s, hs⟩ := ih.mpr ⟨heven, hdigits⟩
      exact ⟨UInt8.ofNat (x * 16 + y) :: s, by
        rw [encodeChars_halves hx hy, List.map_cons, List.map_cons, hc, hd, hs]⟩

/-! ### Order -/

/-- The digits keep the order of the bytes. -/
theorem encodeChars_lt {s t : Bytes} (h : s < t) : encodeChars s < encodeChars t := by
  induction s generalizing t with
  | nil =>
    cases t with
    | nil => exact absurd h (List.lt_irrefl _)
    | cons b t => exact List.nil_lt_cons _ _
  | cons a s ih =>
    cases t with
    | nil => exact absurd h (List.not_lt_nil _)
    | cons b t =>
      obtain ⟨hia, hla⟩ := halves_lt a
      obtain ⟨hib, hlb⟩ := halves_lt b
      rw [encodeChars_cons, encodeChars_cons, List.cons_lt_cons_iff, List.cons_lt_cons_iff]
      rcases List.cons_lt_cons_iff.mp h with hlt | ⟨rfl, hlt⟩
      · rw [UInt8.lt_iff_toNat_lt] at hlt
        rcases Nat.lt_or_ge (a.toNat / 16) (b.toNat / 16) with hhi | hhi
        · exact .inl (digit_lt _ hia _ hib hhi)
        · have heq : a.toNat / 16 = b.toNat / 16 := by omega
          have hlo : a.toNat % 16 < b.toNat % 16 := by omega
          exact .inr ⟨congrArg digit heq, .inl (digit_lt _ hla _ hlb hlo)⟩
      · exact .inr ⟨rfl, .inr ⟨rfl, ih hlt⟩⟩

/-- **The digits keep the order**, as texts. -/
theorem encode_lt {s t : Bytes} (h : s < t) : encode s < encode t := by
  rw [String.lt_iff_toList_lt, encode, encode, String.toList_ofList, String.toList_ofList]
  exact encodeChars_lt h

/-! ### Quoting -/

/-- Digits need no escapes. -/
theorem flatMap_escapeChar_encodeChars (s : Bytes) :
    (encodeChars s).flatMap Json.escapeChar = encodeChars s := by
  induction s with
  | nil => rfl
  | cons b s ih =>
    obtain ⟨hi, lo⟩ := halves_lt b
    rw [encodeChars_cons, List.flatMap_cons, List.flatMap_cons, (digit_plain _ hi).2,
      (digit_plain _ lo).2, ih]
    rfl

end Hex

end ChangeCapture
