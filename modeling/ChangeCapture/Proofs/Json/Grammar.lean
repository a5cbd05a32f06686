import ChangeCapture.Proofs.Dictionary
import ChangeCapture.Proofs.Json.Text

/-!
# The grammar of an object of texts

The grammar says which bytes spell an object all of whose members are texts, and which members, in
the order in which they stand, a repeated name included. Each of its relations is between what is
left before something is spelled, what it is, and what is left after it.

A reader and the grammar agree: what is read is spelled, and what is spelled is read, up to the same
place.

## Main definitions

* `Json.Blanks`, `Json.CodeUnit`, `Json.Escape`, `Json.Body`, `Json.Quoted`: blanks and texts.
* `Json.TextMember`, `Json.TextMembers`, `Json.TextObject`: objects of texts.
* `Json.SpellsTexts`: bytes that spell an object of texts, and nothing else.
* `Json.writeTexts`: an object of texts, written without blanks.

## Main results

* `Json.readString_eq_ok` — a text is read where it is spelled.
* `Json.readTextMember_eq_ok` — so is a member.
* `Json.whole_expectTexts_eq_ok` — bytes are read as an object of texts exactly if they spell one.
* `Json.SpellsTexts.unique`, `Json.spellsTexts_writeTexts` — bytes spell the members of one object
  at most, and any members are spelled by some.
-/

namespace ChangeCapture

namespace Json

/-! ### The grammar -/

/-- Blanks. -/
inductive Blanks : Bytes → Bytes → Prop where
  | none (r : Bytes) : Blanks r r
  | cons {b : UInt8} {s r : Bytes} (hb : isBlank b = true) (h : Blanks s r) : Blanks (b :: s) r

/-- A code unit: four digits in base sixteen, in either case. -/
inductive CodeUnit : Bytes → Nat → Bytes → Prop where
  | digits {a b c d : UInt8} {w x y z : Nat} (ha : hexValue? a = some w) (hb : hexValue? b = some x)
      (hc : hexValue? c = some y) (hd : hexValue? d = some z) (r : Bytes) :
      CodeUnit (a :: b :: c :: d :: r) (((w * 16 + x) * 16 + y) * 16 + z) r

/-- The escapes of one letter, and their characters. -/
def shortEscapes : List (Char × Char) :=
  [('"', '"'), ('\\', '\\'), ('/', '/'), ('b', Char.ofNat 8), ('f', Char.ofNat 12), ('n', '\n'),
    ('r', '\r'), ('t', '\t')]

/-- The character of a pair of code units. -/
def ofHalves (high low : Nat) : Char :=
  Char.ofNat (0x10000 + (high - 0xD800) * 0x400 + (low - 0xDC00))

/-- An escape after its backslash. A character beyond the first `2 ^ 16` takes two code units. -/
inductive Escape : Bytes → Char → Bytes → Prop where
  | short {letter c : Char} (h : (letter, c) ∈ shortEscapes) (r : Bytes) :
      Escape (byte letter :: r) c r
  | unit {s r : Bytes} {n : Nat} (h : CodeUnit s n r) (hlow : isLowHalf n = false)
      (hhigh : isHighHalf n = false) : Escape (byte 'u' :: s) (Char.ofNat n) r
  | pair {s t r : Bytes} {high low : Nat} (h : CodeUnit s high (byte '\\' :: byte 'u' :: t))
      (hhigh : isHighHalf high = true) (h' : CodeUnit t low r) (hlow : isLowHalf low = true) :
      Escape (byte 'u' :: s) (ofHalves high low) r

/-- The bytes of a string up to its closing quote. -/
inductive Body : Bytes → Bytes → Bytes → Prop where
  | close (r : Bytes) : Body (byte '"' :: r) [] r
  | escape {s t r bytes : Bytes} {c : Char} (h : Escape s c t) (hrest : Body t bytes r) :
      Body (byte '\\' :: s) (String.utf8EncodeChar c ++ bytes) r
  | plain {b : UInt8} {s r bytes : Bytes} (hb : IsPlain b) (hrest : Body s bytes r) :
      Body (b :: s) (b :: bytes) r

/-- **A text between quotes.** -/
inductive Quoted : Bytes → String → Bytes → Prop where
  | mk {s r : Bytes} {text : String} (h : Body s (Utf8.encode text) r) :
      Quoted (byte '"' :: s) text r

/-- A member: its name and its text. -/
inductive TextMember : Bytes → String × String → Bytes → Prop where
  | mk {s₁ s₂ s₃ s₄ r : Bytes} {name text : String} (hname : Quoted s₁ name s₂)
      (hcolon : Blanks s₂ (byte ':' :: s₃)) (hblank : Blanks s₃ s₄) (htext : Quoted s₄ text r) :
      TextMember s₁ (name, text) r

/-- What follows a member: others with a comma before each, and the closing brace. -/
inductive TextMembers : Bytes → List (String × String) → Bytes → Prop where
  | close {s r : Bytes} (h : Blanks s (byte '\x7d' :: r)) : TextMembers s [] r
  | more {s₁ s₂ s₃ s₄ r : Bytes} {m : String × String} {ms : List (String × String)}
      (hcomma : Blanks s₁ (byte ',' :: s₂)) (hblank : Blanks s₂ s₃) (hm : TextMember s₃ m s₄)
      (hrest : TextMembers s₄ ms r) : TextMembers s₁ (m :: ms) r

/-- **An object of texts.** -/
inductive TextObject : Bytes → List (String × String) → Bytes → Prop where
  | empty {s₁ s₂ r : Bytes} (hopen : Blanks s₁ (byte '\x7b' :: s₂))
      (hclose : Blanks s₂ (byte '\x7d' :: r)) : TextObject s₁ [] r
  | members {s₁ s₂ s₃ s₄ r : Bytes} {m : String × String} {ms : List (String × String)}
      (hopen : Blanks s₁ (byte '\x7b' :: s₂)) (hblank : Blanks s₂ s₃) (hm : TextMember s₃ m s₄)
      (hrest : TextMembers s₄ ms r) : TextObject s₁ (m :: ms) r

/-- **Bytes that spell an object of texts**, and nothing else but blanks. -/
def SpellsTexts (s : Bytes) (members : List (String × String)) : Prop :=
  ∃ r, TextObject s members r ∧ Blanks r []

variable {s t r bytes : Bytes} {b close : UInt8} {c : Char} {n : Nat} {text : String}
  {m : String × String} {ms : List (String × String)} {acc acc' : Dictionary String String}

/-! ### Blanks -/

/-- Blanks are skipped. -/
theorem blanks_skipBlanks (s : Bytes) : Blanks s (skipBlanks s) := by
  induction s with
  | nil => exact .none []
  | cons b s ih =>
    rw [skipBlanks, List.dropWhile_cons]
    split
    · rename_i hb
      exact .cons hb ih
    · exact .none _

/-- All blanks are skipped. -/
theorem Blanks.skipBlanks_eq (h : Blanks s r) : skipBlanks s = skipBlanks r := by
  induction h with
  | none r => rfl
  | cons hb h ih => rw [← ih, skipBlanks, List.dropWhile_cons, if_pos hb, skipBlanks]

/-- Nothing else is skipped. -/
theorem skipBlanks_cons (hb : isBlank b = false) (s : Bytes) : skipBlanks (b :: s) = b :: s := by
  rw [skipBlanks, List.dropWhile_cons, hb]
  rfl

/-- Up to a byte that is no blank, what is skipped is blank. -/
theorem skipBlanks_eq_cons (hb : isBlank b = false) :
    skipBlanks s = b :: r ↔ Blanks s (b :: r) := by
  refine ⟨fun h => h ▸ blanks_skipBlanks s, fun h => ?_⟩
  rw [h.skipBlanks_eq, skipBlanks_cons hb]

/-- Up to the end, what is skipped is blank. -/
theorem skipBlanks_eq_nil : skipBlanks s = [] ↔ Blanks s [] :=
  ⟨fun h => h ▸ blanks_skipBlanks s, fun h => h.skipBlanks_eq⟩

/-! ### Escapes -/

/-- A code unit that is read is spelled. -/
theorem codeUnit_of_readHex4 (h : readHex4 s = .ok n) : CodeUnit s n (s.drop 4) := by
  rw [readHex4.eq_def] at h
  split at h
  · split at h
    · rename_i ha hb hc hd
      obtain rfl := Except.ok.inj h
      exact .digits ha hb hc hd _
    · cases h
  · cases h

/-- A code unit that is spelled is read, and takes four bytes. -/
theorem CodeUnit.readHex4 (h : CodeUnit s n r) : readHex4 s = .ok n ∧ s.drop 4 = r := by
  cases h with
  | digits ha hb hc hd => exact ⟨by rw [Json.readHex4, ha, hb, hc, hd], rfl⟩

/-- The second half of a pair that is read is spelled. -/
theorem codeUnit_of_readLowHalf {high : Nat} (h : readLowHalf high s = .ok c) :
    ∃ low t, s = byte '\\' :: byte 'u' :: t ∧ CodeUnit t low (t.drop 4) ∧ isLowHalf low = true ∧
      c = ofHalves high low := by
  rw [readLowHalf.eq_def] at h
  split at h
  · cases h
  · split_ifs at h with hslash
    split at h
    · cases h
    · split_ifs at h with hu
      split at h
      · cases h
      · rename_i t _ low hread
        split_ifs at h with hlow
        obtain rfl := Except.ok.inj h
        rw [not_not] at hslash hu
        exact ⟨low, t, by rw [hslash, hu], codeUnit_of_readHex4 hread, hlow, rfl⟩

/-- **An escape that is read is spelled.** -/
theorem escape_of_readEscape {x : Char × Nat} (h : readEscape s = .ok x) :
    Escape s x.1 (s.drop x.2) := by
  have short : ∀ {letter c : Char} {r : Bytes} {x : Char × Nat}, (letter, c) ∈ shortEscapes →
      x = (c, 1) → Escape (byte letter :: r) x.1 ((byte letter :: r).drop x.2) := by
    rintro letter c r _ hmem rfl
    exact .short hmem r
  revert h
  fun_cases readEscape s <;> intro h
  -- Two code units.
  case case12 r high hread _ hhigh d hpair _ _ _ _ _ _ _ _ =>
    obtain rfl := Except.ok.inj h
    obtain ⟨low, t, hs, hunit, hlow, hd⟩ := codeUnit_of_readLowHalf hpair
    have hfirst : CodeUnit r high (byte '\\' :: byte 'u' :: t) := hs ▸ codeUnit_of_readHex4 hread
    have hrest : r.drop 10 = t.drop 4 := by
      rw [← List.drop_drop (i := 6) (j := 4), hs]
      rfl
    change Escape (byte 'u' :: r) d (r.drop 10)
    rw [hd, hrest]
    exact Escape.pair hfirst hhigh hunit hlow
  -- One code unit.
  case case14 r unit hread hlow hhigh _ _ _ _ _ _ _ _ =>
    obtain rfl := Except.ok.inj h
    have hunit := codeUnit_of_readHex4 hread
    exact Escape.unit hunit (Bool.eq_false_iff.mpr hlow) (Bool.eq_false_iff.mpr hhigh)
  all_goals first
    | exact short (by decide) (Except.ok.inj h).symm
    | cases h

/-- An escape of two code units. -/
theorem readEscape_of_pair {high low : Nat} (hread : readHex4 s = .ok high)
    (hhigh : isHighHalf high = true) (hrest : s.drop 4 = byte '\\' :: byte 'u' :: t)
    (hread' : readHex4 t = .ok low) (hlow : isLowHalf low = true) :
    readEscape (byte 'u' :: s) = .ok (ofHalves high low, 11) := by
  have hother : isLowHalf high = false := by
    simp only [isHighHalf, isLowHalf, Bool.and_eq_true, Bool.and_eq_false_iff, decide_eq_true_eq,
      decide_eq_false_iff_not] at hhigh ⊢
    omega
  have hpair : readLowHalf high (s.drop 4) = .ok (ofHalves high low) := by
    rw [hrest, readLowHalf, if_neg (not_not_intro rfl), if_neg (not_not_intro rfl), hread']
    exact if_pos hlow
  rw [readEscape, if_neg (by decide), if_neg (by decide), if_neg (by decide), if_neg (by decide),
    if_neg (by decide), if_neg (by decide), if_neg (by decide), if_neg (by decide), if_pos rfl,
    hread]
  simp only [hother, hhigh, Bool.false_eq_true, if_false, if_true, hpair]

/-- **An escape that is spelled is read.** -/
theorem Escape.readEscape (h : Escape s c r) :
    ∃ n, readEscape s = .ok (c, n) ∧ s.drop n = r := by
  cases h with
  | short h =>
    refine ⟨1, ?_, rfl⟩
    simp only [shortEscapes, List.mem_cons, Prod.mk.injEq, List.not_mem_nil, or_false] at h
    rcases h with ⟨rfl, rfl⟩ | ⟨rfl, rfl⟩ | ⟨rfl, rfl⟩ | ⟨rfl, rfl⟩ | ⟨rfl, rfl⟩ | ⟨rfl, rfl⟩ |
      ⟨rfl, rfl⟩ | ⟨rfl, rfl⟩ <;> rfl
  | unit h hlow hhigh =>
    obtain ⟨hread, hrest⟩ := h.readHex4
    exact ⟨5, readEscape_of_unit hread hlow hhigh, hrest⟩
  | pair h hhigh h' hlow =>
    obtain ⟨hread, hrest⟩ := h.readHex4
    obtain ⟨hread', hrest'⟩ := h'.readHex4
    exact ⟨11, readEscape_of_pair hread hhigh hrest hread' hlow, by
      rw [List.drop_succ_cons, ← List.drop_drop (i := 6) (j := 4), hrest, ← hrest']; rfl⟩

/-! ### Texts -/

/-- The bytes of an escape that have been read already are passed over. -/
theorem readStringBytes_drop (k : Nat) (s : Bytes) :
    readStringBytes k s = readStringBytes 0 (s.drop k) := by
  induction k generalizing s with
  | zero => rfl
  | succ k ih =>
    cases s with
    | nil => rfl
    | cons b s => exact ih s

/-- **The bytes of a string are read where they are spelled.** -/
theorem readStringBytes_eq_ok : readStringBytes 0 s = .ok (bytes, r) ↔ Body s bytes r := by
  constructor
  · suffices general : ∀ k, readStringBytes k s = .ok (bytes, r) → Body (s.drop k) bytes r from
      general 0
    intro k h
    revert h
    fun_induction readStringBytes k s generalizing bytes <;> intro h
    case case2 ih => exact ih h
    case case3 =>
      obtain ⟨rfl, rfl⟩ := Prod.mk.inj (Except.ok.inj h)
      exact .close _
    case case4 hescape _ ih =>
      obtain ⟨rest, hrest, rfl⟩ := prepend_eq_ok h
      exact .escape (escape_of_readEscape hescape) (ih hrest)
    case case7 hquote hslash hcontrol ih =>
      obtain ⟨rest, hrest, rfl⟩ := prepend_eq_ok h
      exact .plain ⟨hquote, hslash, hcontrol⟩ (ih hrest)
    all_goals cases h
  · intro h
    induction h with
    | close r => rfl
    | @escape s t r bytes c h _ ih =>
      obtain ⟨n, hread, rfl⟩ := h.readEscape
      rw [readStringBytes, if_neg (by decide), if_pos rfl, hread]
      dsimp only
      rw [readStringBytes_drop, ih]
      rfl
    | plain hb _ ih =>
      rw [readStringBytes_plain hb, ih]
      rfl

/-- **A text is read where it is spelled**, from what follows its opening quote. -/
theorem readString_eq_ok : readString s = .ok (text, r) ↔ Body s (Utf8.encode text) r := by
  rw [readString]
  constructor
  · intro h
    split at h
    · cases h
    · rename_i bytes rest hbytes
      split at h
      · rename_i t hdecode
        obtain ⟨rfl, rfl⟩ := Prod.mk.inj (Except.ok.inj h)
        rw [Utf8.decode_eq_ok.mp hdecode]
        exact readStringBytes_eq_ok.mp hbytes
      · cases h
  · intro h
    rw [readStringBytes_eq_ok.mpr h]
    dsimp only
    rw [Utf8.decode_eq_ok.mpr rfl]

/-- A quoted text begins with a quote. -/
theorem Quoted.exists_cons (h : Quoted s text r) : ∃ t, s = byte '"' :: t := by
  cases h with
  | mk h => exact ⟨_, rfl⟩

/-- A name is read where it is spelled. -/
theorem readName_eq_ok : readName s = .ok (text, r) ↔ Quoted s text r := by
  constructor
  · intro h
    rw [readName.eq_def] at h
    split at h
    · cases h
    · split_ifs at h with hquote
      subst hquote
      exact .mk (readString_eq_ok.mp h)
  · rintro ⟨h⟩
    rw [readName, if_pos rfl, readString_eq_ok.mpr h]

/-- What is written of a text spells it. -/
theorem quoted_quote (text : String) (r : Bytes) :
    Quoted (Utf8.encodeChars (quote text) ++ r) text r := by
  rw [encodeChars_quote, List.cons_append, List.append_assoc, List.singleton_append]
  exact .mk (readString_eq_ok.mp (readString_quote text r))

/-- A text is asked for, and read where it is spelled. -/
theorem expectString_eq_ok :
    expectString s = .ok (text, r) ↔ ∃ t, Blanks s t ∧ Quoted t text r := by
  rw [expectString]
  constructor
  · intro h
    split at h
    · rename_i b t hskip
      split_ifs at h with hquote
      subst hquote
      exact ⟨_, hskip ▸ blanks_skipBlanks s, .mk (readString_eq_ok.mp h)⟩
    · cases h
  · rintro ⟨t, hblank, ⟨h⟩⟩
    rw [(skipBlanks_eq_cons (by decide)).mpr hblank]
    dsimp only
    rw [if_pos rfl, readString_eq_ok.mpr h]

/-! ### Members -/

/-- A member begins with a quote. -/
theorem TextMember.exists_cons (h : TextMember s m r) : ∃ t, s = byte '"' :: t := by
  cases h with
  | mk hname => exact hname.exists_cons

/-- A colon is read where it is spelled. -/
theorem readColon_eq_ok : readColon s = .ok r ↔ Blanks s (byte ':' :: r) := by
  rw [readColon]
  constructor
  · intro h
    split at h
    · cases h
    · rename_i b t hskip
      split_ifs at h with hcolon
      subst hcolon
      obtain rfl := Except.ok.inj h
      exact hskip ▸ blanks_skipBlanks s
  · intro h
    rw [(skipBlanks_eq_cons (by decide)).mpr h]
    exact if_pos rfl

/-- A member that is spelled is read. -/
theorem TextMember.readTextMember (h : TextMember s m r) (acc : Dictionary String String) :
    readTextMember acc s = .ok (Dictionary.put m.1 m.2 acc, r) := by
  obtain ⟨hname, hcolon, hblank, htext⟩ := h
  rw [Json.readTextMember, readName_eq_ok.mpr hname]
  dsimp only
  rw [readColon_eq_ok.mpr hcolon]
  dsimp only
  rw [expectString_eq_ok.mpr ⟨_, hblank, htext⟩]

/-- **A member is read where it is spelled**, and its text goes under its name. -/
theorem readTextMember_eq_ok :
    readTextMember acc s = .ok (acc', r) ↔
      ∃ m, TextMember s m r ∧ acc' = Dictionary.put m.1 m.2 acc := by
  constructor
  · intro h
    rw [readTextMember] at h
    split at h
    · cases h
    · rename_i name s₂ hname
      split at h
      · cases h
      · rename_i s₃ hcolon
        split at h
        · rename_i text s₄ htext
          obtain ⟨rfl, rfl⟩ := Prod.mk.inj (Except.ok.inj h)
          obtain ⟨t, hblank, hquoted⟩ := expectString_eq_ok.mp htext
          exact ⟨_, .mk (readName_eq_ok.mp hname) (readColon_eq_ok.mp hcolon) hblank hquoted, rfl⟩
        · cases h
  · rintro ⟨m, hm, rfl⟩
    exact hm.readTextMember acc

/-! ### Containers -/

/-- The end of a container is found where it is spelled. -/
theorem next_eq_closed {first : Bool} (hclose : isBlank close = false) :
    next close first s = .ok (.closed r) ↔ Blanks s (close :: r) := by
  rw [next]
  constructor
  · intro h
    split at h
    · cases h
    · rename_i b t hskip
      split_ifs at h with hb hfirst hcomma
      · obtain rfl := Next.closed.inj (Except.ok.inj h)
        exact hb ▸ hskip ▸ blanks_skipBlanks s
      · cases h
      · split at h
        · cases h
        · split_ifs at h
          cases h
  · intro h
    rw [(skipBlanks_eq_cons hclose).mpr h]
    exact if_pos rfl

/-- The first item of a container follows blanks. -/
theorem blanks_of_next_first (h : next close true s = .ok (.item t)) : Blanks s t := by
  rw [next] at h
  split at h
  · cases h
  · rename_i hskip
    rw [if_pos rfl] at h
    split_ifs at h
    · cases h
    · obtain rfl := Next.item.inj (Except.ok.inj h)
      exact hskip ▸ blanks_skipBlanks s

/-- Every other item follows a comma between blanks. -/
theorem blanks_of_next (h : next close false s = .ok (.item t)) :
    ∃ u, Blanks s (byte ',' :: u) ∧ Blanks u t := by
  rw [next] at h
  split at h
  · cases h
  · rename_i hskip
    rw [if_neg Bool.false_ne_true] at h
    split_ifs at h with hend hcomma
    · cases h
    · subst hcomma
      split at h
      · cases h
      · rename_i hskip'
        split_ifs at h
        obtain rfl := Next.item.inj (Except.ok.inj h)
        exact ⟨_, hskip ▸ blanks_skipBlanks s, hskip' ▸ blanks_skipBlanks _⟩

/-- The first item of a container is found where it is spelled. -/
theorem next_item_first (h : Blanks s (b :: r)) (hb : isBlank b = false) (hne : b ≠ close) :
    next close true s = .ok (.item (b :: r)) := by
  rw [next, (skipBlanks_eq_cons hb).mpr h]
  dsimp only
  rw [if_neg hne, if_pos rfl]

/-- Every other item is found where it is spelled. -/
theorem next_item (hcomma : Blanks s (byte ',' :: t)) (h : Blanks t (b :: r))
    (hb : isBlank b = false) (hne : b ≠ close) (hclose : byte ',' ≠ close) :
    next close false s = .ok (.item (b :: r)) := by
  rw [next, (skipBlanks_eq_cons (by decide)).mpr hcomma]
  dsimp only
  rw [if_neg hclose, if_neg Bool.false_ne_true, if_pos rfl, (skipBlanks_eq_cons hb).mpr h]
  exact if_neg hne

/-! ### Objects of texts -/

/-- Blanks take no less than nothing. -/
theorem Blanks.length_le (h : Blanks s r) : r.length ≤ s.length := by
  induction h with
  | none r => exact Nat.le_refl _
  | cons hb h ih => exact Nat.le_succ_of_le ih

/-- A member takes no less than nothing. -/
theorem TextMember.length_le (h : TextMember s m r) : r.length ≤ s.length := by
  have quoted : ∀ {s r : Bytes} {text : String}, Quoted s text r → r.length ≤ s.length := by
    intro s r text h
    obtain ⟨mid, rfl, -⟩ := textUpTo_of_readName (readName_eq_ok.mpr h)
    simp
  obtain ⟨hname, hcolon, hblank, htext⟩ := h
  have h₁ := quoted hname
  have h₂ := hcolon.length_le
  have h₃ := hblank.length_le
  have h₄ := quoted htext
  rw [List.length_cons] at h₂
  omega

/-- Every member but the first takes a byte at least, and so does the closing brace. -/
theorem TextMembers.length_lt (h : TextMembers s ms r) : ms.length < s.length := by
  induction h with
  | close h =>
    have := h.length_le
    rw [List.length_cons] at this
    exact Nat.lt_of_lt_of_le (Nat.succ_pos _) this
  | more hcomma hblank hm _ ih =>
    have h₁ := hcomma.length_le
    have h₂ := hblank.length_le
    have h₃ := hm.length_le
    rw [List.length_cons] at h₁ ⊢
    omega

/-- Members that are read are spelled. -/
theorem textMembers_of_separated
    (h : separated (byte '\x7d') readTextMember n false acc s = .ok (acc', r)) :
    ∃ ms, TextMembers s ms r ∧ acc' = Dictionary.merge acc ms := by
  induction n generalizing acc s with
  | zero => cases h
  | succ n ih =>
    rw [separated] at h
    split at h
    · cases h
    · rename_i hnext
      obtain ⟨rfl, rfl⟩ := Prod.mk.inj (Except.ok.inj h)
      exact ⟨[], .close ((next_eq_closed (by decide)).mp hnext), rfl⟩
    · rename_i hnext
      split at h
      · cases h
      · rename_i hitem
        obtain ⟨m, hm, rfl⟩ := readTextMember_eq_ok.mp hitem
        obtain ⟨ms, hms, rfl⟩ := ih h
        obtain ⟨u, hcomma, hblank⟩ := blanks_of_next hnext
        exact ⟨m :: ms, .more hcomma hblank hm hms, rfl⟩

/-- Members that are spelled are read. -/
theorem TextMembers.separated_eq (h : TextMembers s ms r) (hn : ms.length < n)
    (acc : Dictionary String String) :
    separated (byte '\x7d') readTextMember n false acc s = .ok (Dictionary.merge acc ms, r) := by
  induction h generalizing n acc with
  | close h =>
    obtain ⟨n, rfl⟩ : ∃ m, n = m + 1 := ⟨n - 1, by omega⟩
    rw [separated, (next_eq_closed (by decide)).mpr h]
    rfl
  | @more s₁ s₂ s₃ s₄ r m ms hcomma hblank hm _ ih =>
    obtain ⟨n, rfl⟩ : ∃ m, n = m + 1 := ⟨n - 1, by omega⟩
    have hread := hm.readTextMember acc
    obtain ⟨t, rfl⟩ := hm.exists_cons
    rw [separated, next_item hcomma hblank (by decide) (by decide) (by decide)]
    dsimp only
    rw [hread]
    exact ih (by simpa using hn) _

/-- **An object of texts is read where it is spelled**, and of a repeated name the last text
stays. -/
theorem expectTexts_eq_ok :
    expectTexts s = .ok (acc, r) ↔ ∃ ms, TextObject s ms r ∧ acc = Dictionary.ofList ms := by
  rw [expectTexts]
  constructor
  · intro h
    split at h
    · rename_i b t hskip
      split_ifs at h with hopen
      subst hopen
      have hblanks : Blanks s (byte '\x7b' :: t) := hskip ▸ blanks_skipBlanks s
      rw [separated] at h
      split at h
      · cases h
      · rename_i hnext
        obtain ⟨rfl, rfl⟩ := Prod.mk.inj (Except.ok.inj h)
        exact ⟨[], .empty hblanks ((next_eq_closed (by decide)).mp hnext), rfl⟩
      · rename_i hnext
        split at h
        · cases h
        · rename_i hitem
          obtain ⟨m, hm, rfl⟩ := readTextMember_eq_ok.mp hitem
          obtain ⟨ms, hms, rfl⟩ := textMembers_of_separated h
          exact ⟨m :: ms, .members hblanks (blanks_of_next_first hnext) hm hms, rfl⟩
    · cases h
  · rintro ⟨ms, hobject, rfl⟩
    cases hobject with
    | empty hopen hclose =>
      rw [(skipBlanks_eq_cons (by decide)).mpr hopen]
      dsimp only
      rw [if_pos rfl, separated, (next_eq_closed (by decide)).mpr hclose]
      rfl
    | @members s₂ s₃ s₄ r m ms hopen hblank hm hrest =>
      have hlen : ms.length < s₂.length := by
        have h₁ := hblank.length_le
        have h₂ := hm.length_le
        have h₃ := hrest.length_lt
        omega
      have hread := hm.readTextMember []
      obtain ⟨t, rfl⟩ := hm.exists_cons
      rw [(skipBlanks_eq_cons (by decide)).mpr hopen]
      dsimp only
      rw [if_pos rfl, separated, next_item_first hblank (by decide) (by decide)]
      dsimp only
      rw [hread]
      exact hrest.separated_eq hlen _

/-- **Bytes are read as an object of texts exactly if they spell one**, and of a repeated name the
last text stays. -/
theorem whole_expectTexts_eq_ok :
    whole expectTexts s = .ok acc ↔ ∃ ms, SpellsTexts s ms ∧ acc = Dictionary.ofList ms := by
  rw [whole]
  constructor
  · intro h
    split at h
    · cases h
    · rename_i members rest hread
      split_ifs at h with hblank
      obtain rfl := Except.ok.inj h
      obtain ⟨ms, hobject, rfl⟩ := expectTexts_eq_ok.mp hread
      exact ⟨ms, ⟨rest, hobject, skipBlanks_eq_nil.mp (List.isEmpty_iff.mp hblank)⟩, rfl⟩
  · rintro ⟨ms, ⟨rest, hobject, hblank⟩, rfl⟩
    rw [expectTexts_eq_ok.mpr ⟨ms, hobject, rfl⟩]
    dsimp only
    rw [skipBlanks_eq_nil.mpr hblank]
    rfl

/-! ### One reading -/

/-- The byte that follows blanks, and the rest, are the only ones. -/
theorem Blanks.unique {b' : UInt8} {r' : Bytes} (h : Blanks s (b :: r)) (h' : Blanks s (b' :: r'))
    (hb : isBlank b = false) (hb' : isBlank b' = false) : b = b' ∧ r = r' := by
  have hskip := (skipBlanks_eq_cons hb).mpr h
  rw [(skipBlanks_eq_cons hb').mpr h'] at hskip
  exact (List.cons.inj hskip).imp Eq.symm Eq.symm

/-- The member that bytes spell is the only one. -/
theorem TextMember.unique {m' : String × String} {r' : Bytes} (h : TextMember s m r)
    (h' : TextMember s m' r') : m = m' ∧ r = r' := by
  have hread := h.readTextMember []
  rw [h'.readTextMember []] at hread
  obtain ⟨hput, hrest⟩ := Prod.mk.inj (Except.ok.inj hread)
  exact ⟨(List.singleton_inj.mp hput).symm, hrest.symm⟩

/-- The members that follow are the only ones. -/
theorem TextMembers.unique {ms' : List (String × String)} {r' : Bytes} (h : TextMembers s ms r)
    (h' : TextMembers s ms' r') : ms = ms' ∧ r = r' := by
  induction h generalizing ms' with
  | close h =>
    cases h' with
    | close h' => exact ⟨rfl, (h.unique h' (by decide) (by decide)).2⟩
    | more hcomma =>
      exact absurd (h.unique hcomma (by decide) (by decide)).1 (by decide)
  | more hcomma hblank hm _ ih =>
    cases h' with
    | close h' =>
      exact absurd (hcomma.unique h' (by decide) (by decide)).1 (by decide)
    | more hcomma' hblank' hm' hrest' =>
      obtain ⟨-, rfl⟩ := hcomma.unique hcomma' (by decide) (by decide)
      obtain ⟨t, rfl⟩ := hm.exists_cons
      obtain ⟨t', rfl⟩ := hm'.exists_cons
      obtain ⟨-, rfl⟩ := hblank.unique hblank' (by decide) (by decide)
      obtain ⟨rfl, rfl⟩ := hm.unique hm'
      obtain ⟨rfl, rfl⟩ := ih hrest'
      exact ⟨rfl, rfl⟩

/-- **The members that an object of texts spells are the only ones.** -/
theorem SpellsTexts.unique {ms' : List (String × String)} (h : SpellsTexts s ms)
    (h' : SpellsTexts s ms') : ms = ms' := by
  obtain ⟨r, h, -⟩ := h
  obtain ⟨r', h', -⟩ := h'
  cases h with
  | empty hopen hclose =>
    cases h' with
    | empty => rfl
    | members hopen' hblank' hm' =>
      obtain ⟨-, rfl⟩ := hopen.unique hopen' (by decide) (by decide)
      obtain ⟨t', rfl⟩ := hm'.exists_cons
      exact absurd (hclose.unique hblank' (by decide) (by decide)).1 (by decide)
  | members hopen hblank hm hrest =>
    obtain ⟨t, rfl⟩ := hm.exists_cons
    cases h' with
    | empty hopen' hclose' =>
      obtain ⟨-, rfl⟩ := hopen.unique hopen' (by decide) (by decide)
      exact absurd (hblank.unique hclose' (by decide) (by decide)).1 (by decide)
    | members hopen' hblank' hm' hrest' =>
      obtain ⟨-, rfl⟩ := hopen.unique hopen' (by decide) (by decide)
      obtain ⟨t', rfl⟩ := hm'.exists_cons
      obtain ⟨-, rfl⟩ := hblank.unique hblank' (by decide) (by decide)
      obtain ⟨rfl, rfl⟩ := hm.unique hm'
      rw [(hrest.unique hrest').1]

/-! ### Writing -/

/-- Members that follow another, written without blanks up to the closing brace. -/
def writeMembers : List (String × String) → Bytes
  | [] => [byte '\x7d']
  | (name, text) :: ms =>
    byte ',' :: (Utf8.encodeChars (quote name) ++
      byte ':' :: (Utf8.encodeChars (quote text) ++ writeMembers ms))

/-- **An object of texts, written without blanks.** -/
def writeTexts : List (String × String) → Bytes
  | [] => [byte '\x7b', byte '\x7d']
  | (name, text) :: ms =>
    byte '\x7b' :: (Utf8.encodeChars (quote name) ++
      byte ':' :: (Utf8.encodeChars (quote text) ++ writeMembers ms))

/-- A member that is written is spelled. -/
theorem textMember_quote (name text : String) (r : Bytes) :
    TextMember (Utf8.encodeChars (quote name) ++ byte ':' :: (Utf8.encodeChars (quote text) ++ r))
      (name, text) r :=
  .mk (quoted_quote name _) (.none _) (.none _) (quoted_quote text r)

/-- Members that are written are spelled. -/
theorem textMembers_writeMembers (ms : List (String × String)) :
    TextMembers (writeMembers ms) ms [] := by
  induction ms with
  | nil => exact .close (.none _)
  | cons m ms ih => exact .more (.none _) (.none _) (textMember_quote m.1 m.2 _) ih

/-- **Any members are spelled**, by what is written of them. -/
theorem spellsTexts_writeTexts (ms : List (String × String)) : SpellsTexts (writeTexts ms) ms := by
  cases ms with
  | nil => exact ⟨[], .empty (.none _) (.none _), .none []⟩
  | cons m ms =>
    exact ⟨[], .members (.none _) (.none _) (textMember_quote m.1 m.2 _)
      (textMembers_writeMembers ms), .none []⟩

end Json

end ChangeCapture
