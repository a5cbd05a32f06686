import ChangeCapture.Proofs.Dictionary
import ChangeCapture.Proofs.Text.Hex
import ChangeCapture.Storage.FileStore
import Mathlib.Order.RelClasses

/-!
# The content of a store's file

A store reads back the entries that it has written: the lines of the file give their members one by
one, in the order of the keys, and each member gives its bytes.

## Main results

* `FileStore.decode_content` — the file of sorted entries spells these entries.
* `FileStore.sorted_decode` — whatever a file spells is sorted.
-/

namespace ChangeCapture

namespace FileStore

open Json (byte)
open Utf8 (encodeChars)

/-! ### Members -/

/-- An entry as a member of the file's object. -/
def hexMember (e : Bytes × Bytes) : String × String :=
  (Hex.encode e.1, Hex.encode e.2)

/-- The bytes of a line after its indentation, and what follows it. -/
def memberBytes (e : Bytes × Bytes) (s : Bytes) : Bytes :=
  byte '"' :: (encodeChars (Hex.encodeChars e.1) ++ byte '"' :: byte ':' :: byte ' ' :: byte '"' ::
    (encodeChars (Hex.encodeChars e.2) ++ byte '"' :: s))

/-- The bytes of a line. -/
theorem encodeChars_contentLine (e : Bytes × Bytes) (s : Bytes) :
    encodeChars (contentLine e) ++ s = byte '\n' :: byte ' ' :: byte ' ' :: memberBytes e s := by
  have hline : contentLine e = '\n' :: ' ' :: ' ' :: '"' ::
      (Hex.encodeChars e.1 ++ '"' :: ':' :: ' ' :: '"' :: (Hex.encodeChars e.2 ++ ['"'])) := by
    simp [contentLine]
  have hquote : encodeChars ['"'] = [byte '"'] := rfl
  rw [hline]
  iterate 4 rw [Json.encodeChars_cons_ascii (by decide)]
  rw [Utf8.encodeChars_append]
  iterate 4 rw [Json.encodeChars_cons_ascii (by decide)]
  rw [Utf8.encodeChars_append, hquote]
  simp [memberBytes]

/-- A text of digits is read back from its quoted form. -/
theorem readString_hex (k s : Bytes) :
    Json.readString (encodeChars (Hex.encodeChars k) ++ byte '"' :: s) = .ok (Hex.encode k, s) := by
  have h := Json.readString_quote (Hex.encode k) s
  rwa [Hex.encode, String.toList_ofList, Hex.flatMap_escapeChar_encodeChars] at h

/-- **A line is read** and its value goes under its key. -/
theorem readTextMember_memberBytes (e : Bytes × Bytes) (acc : Dictionary String String)
    (s : Bytes) :
    Json.readTextMember acc (memberBytes e s) =
      .ok (Dictionary.put (hexMember e).1 (hexMember e).2 acc, s) := by
  have hcolon : ∀ r, Json.readColon (byte ':' :: r) = .ok r := fun _ => rfl
  have hvalue : ∀ r, Json.expectString
      (byte ' ' :: byte '"' :: r) = Json.readString r := fun _ => rfl
  rw [Json.readTextMember, memberBytes, Json.readName, if_pos rfl, readString_hex]
  dsimp only
  rw [hcolon]
  dsimp only
  rw [hvalue, readString_hex]
  rfl

/-! ### Lines -/

/-- What follows the first line of a file: the other lines, and the end. -/
def contentRest (entries : Entries) : List Char :=
  entries.flatMap (fun e => ',' :: contentLine e) ++ ['\n', '\x7d']

/-- The file of at least one entry. -/
theorem contentChars_cons (e : Bytes × Bytes) (entries : Entries) :
    contentChars (e :: entries) = '\x7b' :: (contentLine e ++ contentRest entries) := by
  rw [contentChars, List.map_cons]
  dsimp only
  rw [Json.intercalate_comma, List.flatMap_map, contentRest, List.append_assoc]

/-- The bytes after the first line. -/
theorem encodeChars_contentRest_cons (e : Bytes × Bytes) (entries : Entries) :
    encodeChars (contentRest (e :: entries)) =
      byte ',' :: byte '\n' :: byte ' ' :: byte ' ' :: memberBytes e
        (encodeChars (contentRest entries)) := by
  have hrest : contentRest (e :: entries) = ',' :: (contentLine e ++ contentRest entries) := by
    simp [contentRest]
  rw [hrest, Json.encodeChars_cons_ascii (by decide), Utf8.encodeChars_append,
    encodeChars_contentLine]

/-- Every line takes a byte at least. -/
theorem length_lt_contentRest (entries : Entries) :
    entries.length < (encodeChars (contentRest entries)).length := by
  induction entries with
  | nil => decide
  | cons e entries ih =>
    rw [encodeChars_contentRest_cons, memberBytes]
    simp only [List.length_cons, List.length_append]
    omega

/-- The names of a file are in order. -/
theorem sorted_map_hexMember {entries : Entries} (h : Dictionary.Sorted entries) :
    Dictionary.Sorted (entries.map hexMember) := by
  induction entries with
  | nil => trivial
  | cons e entries ih =>
    obtain ⟨hlt, hs⟩ := Dictionary.sorted_cons.mp h
    refine Dictionary.sorted_cons.mpr ⟨fun m hm => ?_, ih hs⟩
    obtain ⟨e', he', rfl⟩ := List.mem_map.mp hm
    exact Hex.encode_lt (hlt e' he')

/-- **The lines of a file are read one by one**, up to its end. -/
theorem separated_contentRest (entries : Entries) {n : Nat} (hn : entries.length < n)
    (acc : Dictionary String String) (hs : Dictionary.Sorted (acc ++ entries.map hexMember)) :
    Json.separated (byte '\x7d') Json.readTextMember n false acc
      (encodeChars (contentRest entries)) =
      .ok (acc ++ entries.map hexMember, []) := by
  induction entries generalizing n acc with
  | nil =>
    obtain ⟨n, rfl⟩ : ∃ m, n = m + 1 := ⟨n - 1, by omega⟩
    rw [List.map_nil, List.append_nil]
    rfl
  | cons e entries ih =>
    obtain ⟨n, rfl⟩ : ∃ m, n = m + 1 := ⟨n - 1, by omega⟩
    have hput : Dictionary.put (hexMember e).1 (hexMember e).2 acc = acc ++ [hexMember e] :=
      Dictionary.put_of_forall_lt fun q hq => hs.lt_of_append hq List.mem_cons_self
    have hnext : ∀ r, Json.next (byte '\x7d') false
        (byte ',' :: byte '\n' :: byte ' ' :: byte ' ' ::
          byte '"' :: r) = .ok (.item (byte '"' :: r)) :=
      fun _ => rfl
    have hline := readTextMember_memberBytes e acc (encodeChars (contentRest entries))
    rw [encodeChars_contentRest_cons, Json.separated]
    rw [memberBytes] at hline ⊢
    rw [hnext]
    dsimp only
    rw [hline]
    dsimp only
    rw [hput, ih (by simpa using hn) _ (by simpa using hs)]
    simp

/-- **The members of a file are its entries.** -/
theorem expectTexts_content {entries : Entries} (h : Dictionary.Sorted entries) :
    Json.whole Json.expectTexts (content entries) = .ok (entries.map hexMember) := by
  cases entries with
  | nil => rfl
  | cons e entries =>
    have hnext : ∀ r, Json.next (byte '\x7d') true
        (byte '\n' :: byte ' ' :: byte ' ' :: byte '"' :: r) = .ok (.item (byte '"' :: r)) :=
      fun _ => rfl
    have hline := readTextMember_memberBytes e [] (encodeChars (contentRest entries))
    have hlen := length_lt_contentRest entries
    have hbytes : content (e :: entries) = byte '\x7b' :: byte '\n' :: byte ' ' :: byte ' ' ::
        memberBytes e (encodeChars (contentRest entries)) := by
      rw [content, contentChars_cons, Json.encodeChars_cons_ascii (by decide),
        Utf8.encodeChars_append,
        encodeChars_contentLine]
    have hread : ∀ r, Json.expectTexts (byte '\x7b' :: r) =
        Json.separated (byte '\x7d') Json.readTextMember (r.length + 1) true [] r := fun _ => rfl
    rw [Json.whole, hbytes, hread, Json.separated]
    rw [memberBytes] at hline ⊢
    rw [hnext]
    dsimp only
    rw [hline]
    dsimp only [Dictionary.put]
    rw [separated_contentRest entries (by simp only [List.length_cons, List.length_append]; omega)
      [hexMember e] (sorted_map_hexMember h)]
    rfl

/-! ### Entries -/

/-- Members of digits are decoded one after the other. -/
theorem decodeMembers_hexMember (acc entries : Entries) :
    decodeMembers acc (entries.map hexMember) = .ok (Dictionary.merge acc entries) := by
  induction entries generalizing acc with
  | nil => rfl
  | cons e entries ih =>
    have hdecode : ∀ s, decodeHex (Hex.encode s) = .ok s := fun s => by
      rw [decodeHex, Hex.decode_encode]
    rw [List.map_cons, hexMember, decodeMembers, hdecode, hdecode]
    exact ih _

/-- **The file of sorted entries spells these entries.** -/
theorem decode_content {entries : Entries} (h : Dictionary.Sorted entries) :
    decode (content entries) = .ok entries := by
  have hne : (content entries).isEmpty = false := by
    cases entries with
    | nil => rfl
    | cons e entries =>
      rw [content, contentChars_cons, Json.encodeChars_cons_ascii (by decide)]; rfl
  rw [decode, hne, expectTexts_content h]
  dsimp only
  rw [if_neg Bool.false_ne_true, decodeMembers_hexMember]
  exact congrArg Except.ok (Dictionary.ofList_eq_self h)

/-- Decoding members keeps entries sorted. -/
theorem sorted_decodeMembers {acc entries : Entries} {members : List (String × String)}
    (hs : Dictionary.Sorted acc) (h : decodeMembers acc members = .ok entries) :
    Dictionary.Sorted entries := by
  induction members generalizing acc with
  | nil =>
    obtain rfl := Except.ok.inj h
    exact hs
  | cons m members ih =>
    obtain ⟨k, v⟩ := m
    rw [decodeMembers] at h
    split at h
    · cases h
    · split at h
      · cases h
      · exact ih hs.put h

/-- **Whatever a file spells is sorted.** -/
theorem sorted_decode {bytes : Bytes} {entries : Entries} (h : decode bytes = .ok entries) :
    Dictionary.Sorted entries := by
  have hnil : Dictionary.Sorted ([] : Entries) := trivial
  rw [decode] at h
  split at h
  · obtain rfl := Except.ok.inj h
    exact hnil
  · split at h
    · cases h
    · exact sorted_decodeMembers hnil h

end FileStore

end ChangeCapture
