import ChangeCapture.Proofs.Json.Grammar
import ChangeCapture.Proofs.Storage.Store
import Mathlib.Data.String.Basic

/-!
# What a file store starts on

A file store starts where there is no file, on an empty file, and on an object of texts whose names
are hexadecimal and whose texts are, as far as they count: of a repeated name only the last text
does, since it takes the place of those before it before any text is decoded. The store then holds
what the members say. Different names may stand for the same key, because digits have two cases;
then the greatest name decides, for the names are decoded in their order.

On anything else the start fails, and the store knows what it knew before.

## Main definitions

* `FileStore.started`: a store after a start, which may fail.
* `FileStore.WellFormed`, `FileStore.Loadable`: bytes, and paths, that a store starts on.
* `FileStore.Gives`: what members say of a key.

## Main results

* `FileStore.exists_decode_iff` — bytes are decoded exactly if they are well formed.
* `FileStore.get?_of_decode` — what is decoded is what the members say.
* `FileStore.starts_exactly` — what a store starts on, what it holds then, and what it holds if it
  does not start.
-/

namespace ChangeCapture

namespace FileStore

open Dictionary (IsLast)
open Hex (IsHex)

/-- A store after a start. One that fails leaves it as it was. -/
def started (tree : FileTree) (s : FileStore) : FileStore :=
  match s.start tree with
  | .ok s' => s'
  | .error _ => s

/-- **Bytes that a store starts on**: none at all, or an object of texts in which all names are
hexadecimal, and of every name the last text is. -/
inductive WellFormed : Bytes → Prop where
  | empty : WellFormed []
  | object {bytes : Bytes} {members : List (String × String)}
      (spells : Json.SpellsTexts bytes members) (names : ∀ m ∈ members, IsHex m.1)
      (texts : ∀ name text, IsLast name text members → IsHex text) : WellFormed bytes

/-- **A path that a store starts on**: its file is missing or well formed. -/
def Loadable (tree : FileTree) (path : FilePath) : Prop :=
  tree.read path = .error .notFound ∨ ∃ bytes, tree.read path = .ok bytes ∧ WellFormed bytes

/-- **What members say of a key**: the last text of the greatest name that stands for it. -/
def Gives (members : List (String × String)) (key value : Bytes) : Prop :=
  ∃ name text, IsLast name text members ∧ Hex.decode name = .ok key ∧
    Hex.decode text = .ok value ∧ ∀ m ∈ members, Hex.decode m.1 = .ok key → m.1 ≤ name

variable {tree : FileTree} {s : FileStore} {bytes key value : Bytes} {entries acc : Entries}
  {members : List (String × String)}

/-! ### Decoding -/

/-- A text is decoded as it is. -/
theorem decodeHex_eq_ok {text : String} :
    decodeHex text = .ok bytes ↔ Hex.decode text = .ok bytes := by
  rw [decodeHex]
  cases Hex.decode text with
  | ok s => exact ⟨fun h => congrArg _ (Except.ok.inj h), fun h => congrArg _ (Except.ok.inj h)⟩
  | error fault => exact ⟨by rintro ⟨⟩, by rintro ⟨⟩⟩

/-- Members are decoded one by one. -/
theorem decodeMembers_cons {m : String × String} :
    decodeMembers acc (m :: members) = .ok entries ↔
      ∃ key value, Hex.decode m.1 = .ok key ∧ Hex.decode m.2 = .ok value ∧
        decodeMembers (Dictionary.put key value acc) members = .ok entries := by
  obtain ⟨name, text⟩ := m
  simp only [← decodeHex_eq_ok]
  rw [decodeMembers]
  constructor
  · intro h
    split at h
    · cases h
    · rename_i key hkey
      split at h
      · cases h
      · rename_i value hvalue
        exact ⟨key, value, hkey, hvalue, h⟩
  · rintro ⟨key, value, hkey, hvalue, h⟩
    rw [hkey]
    dsimp only
    rw [hvalue]
    exact h

/-- **Members are decoded** exactly if all of them are hexadecimal. -/
theorem exists_decodeMembers_iff :
    (∃ entries, decodeMembers acc members = .ok entries) ↔
      ∀ m ∈ members, IsHex m.1 ∧ IsHex m.2 := by
  induction members generalizing acc with
  | nil => exact ⟨fun _ => by simp, fun _ => ⟨acc, rfl⟩⟩
  | cons m members ih =>
    rw [List.forall_mem_cons, ← Hex.exists_decode_iff, ← Hex.exists_decode_iff]
    constructor
    · rintro ⟨entries, h⟩
      obtain ⟨key, value, hkey, hvalue, hrest⟩ := decodeMembers_cons.mp h
      exact ⟨⟨⟨key, hkey⟩, ⟨value, hvalue⟩⟩, ih.mp ⟨entries, hrest⟩⟩
    · rintro ⟨⟨⟨key, hkey⟩, ⟨value, hvalue⟩⟩, hrest⟩
      obtain ⟨entries, h⟩ : ∃ entries,
          decodeMembers (Dictionary.put key value acc) members = .ok entries := ih.mpr hrest
      exact ⟨entries, decodeMembers_cons.mpr ⟨key, value, hkey, hvalue, h⟩⟩

/-- **The member that decides on a key**: of those whose names stand for it, the one with the
greatest name. -/
def Decides (members : List (String × String)) (key : Bytes) (m : String × String) : Prop :=
  m ∈ members ∧ Hex.decode m.1 = .ok key ∧
    ∀ m' ∈ members, Hex.decode m'.1 = .ok key → m'.1 ≤ m.1

/-- A member that a greater one follows does not decide. -/
theorem decides_cons_of_mem {m m' g : String × String} (hfirst : ∀ q ∈ members, m.1 < q.1)
    (hm' : m' ∈ members) (hkey : Hex.decode m'.1 = .ok key) :
    Decides (m :: members) key g ↔ Decides members key g := by
  constructor
  · rintro ⟨hg, hgkey, hmax⟩
    have hlater : m.1 < g.1 :=
      lt_of_lt_of_le (hfirst m' hm') (hmax m' (List.mem_cons_of_mem _ hm') hkey)
    refine ⟨(List.mem_cons.mp hg).resolve_left ?_, hgkey, (List.forall_mem_cons.mp hmax).2⟩
    rintro rfl
    exact lt_irrefl _ hlater
  · rintro ⟨hg, hgkey, hmax⟩
    exact ⟨List.mem_cons_of_mem _ hg, hgkey, List.forall_mem_cons.mpr
      ⟨fun _ => le_of_lt (hfirst g hg), hmax⟩⟩

/-- A member that no other follows for a key decides on it. -/
theorem decides_cons_of_forall {m g : String × String}
    (hno : ∀ m' ∈ members, Hex.decode m'.1 ≠ .ok key) :
    Decides (m :: members) key g ↔ g = m ∧ Hex.decode m.1 = .ok key := by
  constructor
  · rintro ⟨hg, hgkey, -⟩
    rcases List.mem_cons.mp hg with rfl | hg
    · exact ⟨rfl, hgkey⟩
    · exact absurd hgkey (hno g hg)
  · rintro ⟨rfl, hkey⟩
    exact ⟨List.mem_cons_self, hkey, List.forall_mem_cons.mpr
      ⟨fun _ => le_refl _, fun m' hm' h => absurd h (hno m' hm')⟩⟩

/-- A member that no other follows for its key gives its own text. -/
theorem exists_decides_cons_of_forall {m : String × String} {k v : Bytes}
    (hk : Hex.decode m.1 = .ok k) (hv : Hex.decode m.2 = .ok v)
    (hno : ∀ m' ∈ members, Hex.decode m'.1 ≠ .ok key) :
    (∃ g, Decides (m :: members) key g ∧ Hex.decode g.2 = .ok value) ↔ key = k ∧ value = v := by
  simp only [decides_cons_of_forall hno, hk]
  constructor
  · rintro ⟨g, ⟨rfl, hkey⟩, hvalue⟩
    exact ⟨(Except.ok.inj hkey).symm, Except.ok.inj (hvalue.symm.trans hv)⟩
  · rintro ⟨rfl, rfl⟩
    exact ⟨m, ⟨rfl, rfl⟩, hv⟩

/-- **What decoded members hold** under a key: the text of the member that decides on it, or what
was there before if no name stands for it. -/
theorem get?_of_decodeMembers (hs : Dictionary.Sorted members)
    (h : decodeMembers acc members = .ok entries) :
    Dictionary.get? key entries = some value ↔
      (∃ m, Decides members key m ∧ Hex.decode m.2 = .ok value) ∨
        (∀ m ∈ members, Hex.decode m.1 ≠ .ok key) ∧ Dictionary.get? key acc = some value := by
  induction members generalizing acc with
  | nil =>
    obtain rfl := Except.ok.inj h
    simp [Decides]
  | cons m members ih =>
    obtain ⟨hfirst, hs⟩ := Dictionary.sorted_cons.mp hs
    obtain ⟨k, v, hk, hv, hrest⟩ := decodeMembers_cons.mp h
    rw [ih hs hrest, Dictionary.get?_put]
    by_cases hlater : ∃ m' ∈ members, Hex.decode m'.1 = .ok key
    · obtain ⟨m', hm', hkey⟩ := hlater
      simp only [decides_cons_of_mem hfirst hm' hkey]
      rw [or_iff_left fun hno => hno.1 m' hm' hkey,
        or_iff_left fun hno => hno.1 m' (List.mem_cons_of_mem _ hm') hkey]
    · have hno : ∀ m' ∈ members, Hex.decode m'.1 ≠ .ok key := fun m' hm' hkey =>
        hlater ⟨m', hm', hkey⟩
      have hnone : ¬ ∃ g, Decides members key g ∧ Hex.decode g.2 = .ok value := by
        rintro ⟨g, ⟨hg, hgkey, -⟩, -⟩
        exact hno g hg hgkey
      rw [or_iff_right hnone, and_iff_right hno, exists_decides_cons_of_forall hk hv hno]
      by_cases hkey : key = k
      · subst hkey
        rw [if_pos rfl, or_iff_left fun hnot => hnot.1 m List.mem_cons_self hk,
          and_iff_right rfl, Option.some.injEq, eq_comm]
      · have hall : ∀ m' ∈ m :: members, Hex.decode m'.1 ≠ .ok key :=
          List.forall_mem_cons.mpr
            ⟨fun h => hkey (Except.ok.inj (h.symm.trans hk)), hno⟩
        rw [if_neg hkey, or_iff_right fun hboth => hkey hboth.1, and_iff_right hall]

/-! ### Files -/

/-- An object of texts is not empty. -/
theorem ne_nil_of_spellsTexts (h : Json.SpellsTexts bytes members) : bytes ≠ [] := by
  rintro rfl
  have hread := Json.whole_expectTexts_eq_ok.mpr ⟨members, h, rfl⟩
  cases hread

/-- An object of texts is decoded member by member, in the order of the names. -/
theorem decode_of_spellsTexts (h : Json.SpellsTexts bytes members) :
    decode bytes = decodeMembers [] (Dictionary.ofList members) := by
  have hne : bytes.isEmpty = false := by
    simpa using ne_nil_of_spellsTexts h
  rw [decode, hne, Json.whole_expectTexts_eq_ok.mpr ⟨members, h, rfl⟩]
  rfl

/-- All texts that count are hexadecimal if those of the dictionary are. -/
theorem forall_isHex_iff :
    (∀ m ∈ Dictionary.ofList members, IsHex m.1 ∧ IsHex m.2) ↔
      (∀ m ∈ members, IsHex m.1) ∧ ∀ name text, IsLast name text members → IsHex text := by
  constructor
  · intro h
    refine ⟨fun m hm => ?_, fun name text hlast => (h _ (Dictionary.mem_ofList_iff.mpr hlast)).2⟩
    obtain ⟨text, hlast⟩ := Dictionary.exists_isLast hm rfl
    exact (h _ (Dictionary.mem_ofList_iff.mpr hlast)).1
  · rintro ⟨hnames, htexts⟩ ⟨name, text⟩ hm
    have hlast := Dictionary.mem_ofList_iff.mp hm
    obtain ⟨before, after, rfl, -⟩ := hlast
    exact ⟨hnames _ (by simp), htexts name text (Dictionary.mem_ofList_iff.mp hm)⟩

/-- **Bytes are decoded exactly if they are well formed.** -/
theorem exists_decode_iff : (∃ entries, decode bytes = .ok entries) ↔ WellFormed bytes := by
  constructor
  · rintro ⟨entries, h⟩
    by_cases hempty : bytes = []
    · subst hempty
      exact .empty
    · rw [decode, if_neg (by simpa using hempty)] at h
      split at h
      · cases h
      · rename_i members hread
        obtain ⟨ms, hspells, rfl⟩ := Json.whole_expectTexts_eq_ok.mp hread
        obtain ⟨hnames, htexts⟩ :=
          forall_isHex_iff.mp (exists_decodeMembers_iff.mp ⟨entries, h⟩)
        exact .object hspells hnames htexts
  · intro h
    cases h with
    | empty => exact ⟨[], rfl⟩
    | object spells names texts =>
      rw [decode_of_spellsTexts spells]
      exact exists_decodeMembers_iff.mpr (forall_isHex_iff.mpr ⟨names, texts⟩)

/-- **What is decoded is what the members say.** -/
theorem get?_of_decode (hspells : Json.SpellsTexts bytes members)
    (h : decode bytes = .ok entries) :
    Dictionary.get? key entries = some value ↔ Gives members key value := by
  rw [decode_of_spellsTexts hspells] at h
  rw [get?_of_decodeMembers (Dictionary.sorted_ofList members) h, or_iff_left fun hno => nomatch hno.2]
  constructor
  · rintro ⟨⟨name, text⟩, ⟨hmem, hkey, hmax⟩, hvalue⟩
    refine ⟨name, text, Dictionary.mem_ofList_iff.mp hmem, hkey, hvalue, fun m hm hmkey => ?_⟩
    obtain ⟨t, hlast⟩ := Dictionary.exists_isLast hm rfl
    exact hmax (m.1, t) (Dictionary.mem_ofList_iff.mpr hlast) hmkey
  · rintro ⟨name, text, hlast, hkey, hvalue, hmax⟩
    refine ⟨(name, text), ⟨Dictionary.mem_ofList_iff.mpr hlast, hkey, ?_⟩, hvalue⟩
    rintro ⟨name', text'⟩ hm hmkey
    obtain ⟨before, after, rfl, -⟩ := Dictionary.mem_ofList_iff.mp hm
    exact hmax (name', text') (by simp) hmkey

/-- **What is loaded**: nothing where there is no file, else what the file says. -/
theorem exists_load_iff {path : FilePath} :
    (∃ entries, load tree path = .ok entries) ↔ Loadable tree path := by
  rw [load, Loadable]
  cases hread : tree.read path with
  | ok bytes => simp [exists_decode_iff]
  | error fault => cases fault <;> simp

/-- A store starts if it loads something. -/
theorem exists_start_iff : (∃ s', s.start tree = .ok s') ↔ Loadable tree s.path := by
  rw [← exists_load_iff]
  constructor
  · rintro ⟨s', h⟩
    obtain ⟨entries, hload, -⟩ := start_eq_ok.mp h
    exact ⟨entries, hload⟩
  · rintro ⟨entries, hload⟩
    exact ⟨_, start_eq_ok.mpr ⟨entries, hload, rfl⟩⟩

/-- A store that loads something knows that after its start. -/
theorem started_of_load (h : load tree s.path = .ok entries) :
    s.started tree = { s with entries } := by
  rw [started, start_eq_ok.mpr ⟨entries, h, rfl⟩]

/-- **A store starts exactly on what is well formed.** It starts if and only if its file is missing,
or empty, or an object of texts in which every name is hexadecimal and so is, of every name, the
last text. Then it holds nothing where the file is missing or empty, and else under each key the
last text of the greatest name that stands for it, and nothing more. If it does not start it says
so, and finds what it found before. -/
theorem starts_exactly (tree : FileTree) (s : FileStore) :
    ((∃ s', s.start tree = .ok s') ↔ Loadable tree s.path) ∧
    ((tree.read s.path = .error .notFound ∨ tree.read s.path = .ok []) →
      (s.started tree).entries = []) ∧
    (∀ bytes members, tree.read s.path = .ok bytes → Json.SpellsTexts bytes members →
      WellFormed bytes → ∀ key value,
        Dictionary.get? key (s.started tree).entries = some value ↔ Gives members key value) ∧
    (¬ Loadable tree s.path →
      (∃ e, s.start tree = .error e) ∧ ∀ keys, (s.started tree).get keys = s.get keys) := by
  refine ⟨exists_start_iff, fun hnothing => ?_,
    fun bytes members hread hspells hwell key value => ?_, fun hnot => ?_⟩
  · have hload : load tree s.path = .ok [] := by
      rcases hnothing with h | h
      · rw [load, h]
      · rw [load, h]
        rfl
    rw [started_of_load hload]
  · obtain ⟨entries, hdecode⟩ := exists_decode_iff.mpr hwell
    have hload : load tree s.path = .ok entries := by
      rw [load, hread]
      exact hdecode
    rw [started_of_load hload]
    exact get?_of_decode hspells hdecode
  · cases hload : load tree s.path with
    | ok entries => exact absurd (exists_load_iff.mp ⟨entries, hload⟩) hnot
    | error e =>
      have hstart : s.start tree = .error e := by rw [start, hload]
      exact ⟨⟨e, hstart⟩, fun keys => by rw [started, hstart]⟩

/-- Two names stand for one key, and the greater is repeated: its last text is what the store
holds. -/
theorem starts_on_last_of_greatest :
    let members := [("6b", "31"), ("6b", "32"), ("6B", "33")]
    let tree : FileTree := [(["offsets.json"], .file (Json.writeTexts members))]
    let s : FileStore := { path := ⟨"offsets.json"⟩ }
    (∃ s', s.start tree = .ok s') ∧
      Dictionary.get? [0x6b] (s.started tree).entries = some [0x32] := by
  intro members tree s
  have hread : tree.read s.path = .ok (Json.writeTexts members) := by decide +kernel
  have hspells := Json.spellsTexts_writeTexts members
  have hwell : WellFormed (Json.writeTexts members) := by
    have hhex : ∀ m ∈ Dictionary.ofList members, IsHex m.1 ∧ IsHex m.2 := by decide +kernel
    obtain ⟨names, texts⟩ := forall_isHex_iff.mp hhex
    exact .object hspells names texts
  have hgives : Gives members [0x6b] [0x32] :=
    ⟨"6b", "32", ⟨[("6b", "31")], [("6B", "33")], rfl, by simp⟩, by decide +kernel,
      by decide +kernel, by decide +kernel⟩
  obtain ⟨hstarts, -, hholds, -⟩ := starts_exactly tree s
  exact ⟨hstarts.mpr (.inr ⟨_, hread, hwell⟩),
    (hholds _ members hread hspells hwell [0x6b] [0x32]).mpr hgives⟩

/-- **A text that another takes the place of need not be hexadecimal**: a store starts on an object
in which the first text of a repeated name is not. -/
theorem not_starts_only_on_hex :
    ¬ ∀ (tree : FileTree) (s : FileStore), (∃ s', s.start tree = .ok s') ↔
      (tree.read s.path = .error .notFound ∨ ∃ bytes, tree.read s.path = .ok bytes ∧
        (bytes = [] ∨ ∃ members, Json.SpellsTexts bytes members ∧
          ∀ m ∈ members, IsHex m.1 ∧ IsHex m.2)) := by
  intro hall
  let members := [("6b", "zz"), ("6b", "31")]
  let tree : FileTree := [(["offsets.json"], .file (Json.writeTexts members))]
  let s : FileStore := { path := ⟨"offsets.json"⟩ }
  have hread : tree.read s.path = .ok (Json.writeTexts members) := by decide +kernel
  have hstarts : s.start tree = .ok { s with entries := [([0x6b], [0x31])] } := by decide +kernel
  obtain h | ⟨bytes, h, h'⟩ := (hall tree s).mp ⟨_, hstarts⟩
  · cases hread.symm.trans h
  · obtain rfl := Except.ok.inj (hread.symm.trans h)
    obtain h' | ⟨members', hspells, hhex⟩ := h'
    · exact absurd h' (List.cons_ne_nil _ _)
    · obtain rfl := (Json.spellsTexts_writeTexts members).unique hspells
      exact absurd (hhex ("6b", "zz") List.mem_cons_self).2 (by decide)

end FileStore

end ChangeCapture
