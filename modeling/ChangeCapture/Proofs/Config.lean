import ChangeCapture.Config
import ChangeCapture.Proofs.Text.Blank
import Mathlib.Data.Nat.Digits.Defs

/-!
# What makes a configuration

Properties are read into a configuration if the flush timeout, where it is present, spells a number
of 64 bits and the two converters, where they are present, are named in any mix of ASCII cases. If
not, the error is about the first of the three that cannot be read. What is read then passes
validation if a name and a connector class are present and the timeout is not zero.

Blanks around a value are no part of it.

## Main definitions

* `Config.HasValue`, `Config.IsPresent`: what properties say.
* `Config.SpellsWord`: the texts of numbers of 64 bits.
* `Config.Spells`, `Config.Readable`, `Config.FirstUnreadable`: what can be read and what cannot.
* `Config.Describes`: the configuration that properties describe.

## Main results

* `Config.parseWord?_eq_some` — a number is read exactly if it is spelled.
* `Config.ofProperties_eq_ok`, `Config.ofProperties_eq_error` — what is read, and what is refused.
* `Config.accepts_exactly` — all of it, with validation and blanks.
-/

namespace ChangeCapture

/-- Two texts with the same letters, in whatever ASCII case. -/
def SameLetters (text text' : String) : Prop :=
  text.toList.map Char.toLower = text'.toList.map Char.toLower

namespace Config

/-! ### What properties say -/

/-- **The value of a property**: the core of what it is set to, which is something. -/
def HasValue (properties : Properties) (name value : String) : Prop :=
  ∃ raw, Dictionary.get? name properties = some raw ∧ IsCore raw value ∧ value ≠ ""

/-- A property has a value. -/
def IsPresent (properties : Properties) (name : String) : Prop :=
  ∃ value, HasValue properties name value

/-- **What a property says**: its value is so, or it has none and the default is so. -/
def Says (properties : Properties) (name : String) (so : String → Prop) (byDefault : Prop) : Prop :=
  (∃ value, HasValue properties name value ∧ so value) ∨ (¬ IsPresent properties name ∧ byDefault)

/-- The number that decimal digits stand for, the most significant first. -/
def decimalValue (digits : List Char) : Nat :=
  Nat.ofDigits 10 (digits.reverse.map fun c => c.toNat - '0'.toNat)

/-- **A text that spells a number of 64 bits**: decimal digits, perhaps after a plus sign. -/
def SpellsWord (text : String) (n : Nat) : Prop :=
  ∃ digits : List Char, (text.toList = digits ∨ text.toList = '+' :: digits) ∧ digits ≠ [] ∧
    (∀ c ∈ digits, c.isDigit = true) ∧ decimalValue digits = n ∧ n < 2 ^ 64

/-- **What can be read** as the value of a property. -/
def Spells : ConfigField → String → Prop
  | .flushTimeout, value => ∃ n, SpellsWord value n
  | .keyConverter, value | .valueConverter, value =>
    ∃ kind : ConverterKind, SameLetters value kind.name

/-- **A property that is absent or can be read.** -/
def Readable (properties : Properties) (field : ConfigField) : Prop :=
  ∀ value, HasValue properties field.name value → Spells field value

/-- The place of a property in the order in which they are read. -/
def rank : ConfigField → Nat
  | .flushTimeout => 0
  | .keyConverter => 1
  | .valueConverter => 2

/-- **The first property that cannot be read**, and its value. -/
structure FirstUnreadable (properties : Properties) (field : ConfigField) (value : String) :
    Prop where
  hasValue : HasValue properties field.name value
  unreadable : ¬ Spells field value
  first : ∀ earlier, rank earlier < rank field → Readable properties earlier

/-- **The configuration that properties describe.** -/
structure Describes (ps : Properties) (config : Config) : Prop where
  name : Says ps "name" (· = config.name) (config.name = "")
  connectorClass :
    Says ps "connector.class" (· = config.connectorClass) (config.connectorClass = "")
  flushTimeout : Says ps ConfigField.flushTimeout.name (SpellsWord · config.flushTimeout)
    (config.flushTimeout = 5000)
  keyConverter : Says ps ConfigField.keyConverter.name (SameLetters · config.keyConverter.name)
    (config.keyConverter = .string)
  valueConverter : Says ps ConfigField.valueConverter.name
    (SameLetters · config.valueConverter.name) (config.valueConverter = .json)
  properties : config.properties = ps

/-- The properties that are recognised. -/
def recognised : List String :=
  ["name", "connector.class", ConfigField.flushTimeout.name, ConfigField.keyConverter.name,
    ConfigField.valueConverter.name]

/-- **Properties with more blanks** around the values of those that are recognised; the others may
be any. -/
def Pads (ps ps' : Properties) : Prop :=
  ∀ name ∈ recognised, ∃ before after, AllBlank before ∧ AllBlank after ∧
    Dictionary.get? name ps' = (Dictionary.get? name ps).map (padded before · after)

variable {ps ps' : Properties} {name value text : String} {n : Nat} {config : Config}
  {e : ConfigError} {field : ConfigField} {kind default : ConverterKind}

/-! ### Values -/

/-- What is found under a name is its value. -/
theorem present?_eq_some : present? ps name = some value ↔ HasValue ps name value := by
  rw [present?, HasValue]
  cases Dictionary.get? name ps with
  | none => simp
  | some raw =>
    simp only [Option.some.injEq, exists_eq_left', ← trim_eq_iff]
    split
    · rename_i hempty
      have hnil : trim raw = "" := by simpa using hempty
      simp [hnil]
    · rename_i hempty
      have hne : trim raw ≠ "" := by simpa using hempty
      simp only [Option.some.injEq]
      exact ⟨fun h => ⟨h, h ▸ hne⟩, And.left⟩

/-- Nothing is found under the name of a property that is absent. -/
theorem present?_eq_none : present? ps name = none ↔ ¬ IsPresent ps name := by
  simp only [IsPresent, ← present?_eq_some, Option.eq_none_iff_forall_not_mem, Option.mem_def,
    not_exists]

/-- A property has one value. -/
theorem HasValue.unique {value' : String} (h : HasValue ps name value)
    (h' : HasValue ps name value') : value = value' :=
  Option.some.inj ((present?_eq_some.mpr h).symm.trans (present?_eq_some.mpr h'))

/-- What a property says is what is found under its name. -/
theorem says_iff {so : String → Prop} {byDefault : Prop} : Says ps name so byDefault ↔
    match present? ps name with
    | some value => so value
    | none => byDefault := by
  cases h : present? ps name with
  | none => simp [Says, present?_eq_none.mp h, ← present?_eq_some, h]
  | some value =>
    have hpresent : IsPresent ps name := ⟨value, present?_eq_some.mp h⟩
    simp [Says, hpresent, ← present?_eq_some, h]

/-- A present property is not the empty text. -/
theorem Says.eq_empty_iff {text : String} (h : Says ps name (· = text) (text = "")) :
    text = "" ↔ ¬ IsPresent ps name := by
  obtain ⟨value, hvalue, rfl⟩ | ⟨habsent, htext⟩ := h
  · have hne : value ≠ "" := hvalue.choose_spec.2.2
    exact iff_of_false hne fun habsent => habsent ⟨value, hvalue⟩
  · exact iff_of_true htext habsent

/-! ### Numbers -/

/-- Digits are added up one by one. -/
theorem foldl_eq_decimalValue (digits : List Char) :
    digits.foldl (fun n c => n * 10 + (c.toNat - 48)) 0 = decimalValue digits := by
  rw [decimalValue, Nat.ofDigits_eq_foldr, List.map_reverse, List.foldr_reverse, List.foldl_map]
  congr
  funext n c
  rw [Nat.add_comm, Nat.mul_comm, Nat.cast_id]
  rfl

/-- Characters are read as a number if they are digits. -/
theorem natOfDigits?_eq_some {digits : List Char} : natOfDigits? digits = some n ↔
    digits ≠ [] ∧ (∀ c ∈ digits, c.isDigit = true) ∧ decimalValue digits = n := by
  rw [natOfDigits?, foldl_eq_decimalValue]
  by_cases hnil : digits = []
  · simp [hnil]
  · simp [hnil]

/-- Characters without a plus sign before them. -/
def unsigned : List Char → List Char
  | '+' :: cs => cs
  | cs => cs

/-- Digits have no sign before them. -/
theorem unsigned_digits {digits : List Char} (h : ∀ c ∈ digits, c.isDigit = true) :
    unsigned digits = digits := by
  unfold unsigned
  split
  · exact absurd (h '+' List.mem_cons_self) (by decide)
  · rfl

/-- A number is read off what follows the sign. -/
theorem parseWord?_eq (text : String) : parseWord? text =
    (natOfDigits? (unsigned text.toList)).bind fun n => if n ≤ maxWord then some n else none := by
  unfold parseWord? unsigned
  dsimp only
  generalize natOfDigits? _ = read
  cases read <;> rfl

/-- **A number is read exactly if it is spelled.** -/
theorem parseWord?_eq_some : parseWord? text = some n ↔ SpellsWord text n := by
  have hsize : n ≤ maxWord ↔ n < 2 ^ 64 := by
    have hmax : maxWord = 2 ^ 64 - 1 := rfl
    omega
  have hread : parseWord? text = some n ↔
      natOfDigits? (unsigned text.toList) = some n ∧ n < 2 ^ 64 := by
    rw [parseWord?_eq, Option.bind_eq_some_iff, ← hsize]
    constructor
    · rintro ⟨m, hm, h⟩
      split at h
      · rename_i hle
        cases h
        exact ⟨hm, hle⟩
      · cases h
    · rintro ⟨hn, hle⟩
      exact ⟨n, hn, if_pos hle⟩
  rw [hread, natOfDigits?_eq_some, SpellsWord]
  constructor
  · rintro ⟨⟨hne, hall, hvalue⟩, hlt⟩
    refine ⟨_, ?_, hne, hall, hvalue, hlt⟩
    unfold unsigned
    split
    · exact .inr ‹_›
    · exact .inl rfl
  · rintro ⟨digits, htext, hne, hall, hvalue, hlt⟩
    have hunsigned : unsigned text.toList = digits := by
      rcases htext with h | h
      · rw [h, unsigned_digits hall]
      · rw [h]
        rfl
    rw [hunsigned]
    exact ⟨⟨hne, hall, hvalue⟩, hlt⟩

/-! ### Converters -/

/-- **A converter is found exactly by its name**, in whatever ASCII case. -/
theorem parse?_eq_some (h : trim text = text) :
    ConverterKind.parse? text = some kind ↔ SameLetters text kind.name := by
  have hlower : ∀ word : String, word.toList.map Char.toLower = word.toList →
      (lowerAscii text = word ↔ SameLetters text word) := fun word hword => by
    rw [SameLetters, hword, lowerAscii, ← String.toList_inj, String.toList_ofList]
  have hstring := hlower "string" (by decide)
  have hjson := hlower "json" (by decide)
  rw [ConverterKind.parse?, h]
  cases kind with
  | string =>
    rw [ConverterKind.name, ← hstring]
    by_cases hs : lowerAscii text = "string"
    · rw [if_pos hs]
      exact iff_of_true rfl hs
    · rw [if_neg hs]
      refine iff_of_false (fun hk => ?_) hs
      split at hk <;> cases hk
  | json =>
    rw [ConverterKind.name, ← hjson]
    by_cases hs : lowerAscii text = "string"
    · rw [if_pos hs, hs]
      exact iff_of_false (by simp) (by decide)
    · rw [if_neg hs]
      by_cases hj : lowerAscii text = "json"
      · rw [if_pos hj]
        exact iff_of_true rfl hj
      · rw [if_neg hj]
        exact iff_of_false (by simp) hj

/-! ### What is read, and what is refused -/

/-- The flush timeout that is read. -/
theorem readTimeout_eq_ok : readTimeout ps = .ok n ↔
    Says ps ConfigField.flushTimeout.name (SpellsWord · n) (n = 5000) := by
  rw [says_iff, readTimeout]
  cases present? ps ConfigField.flushTimeout.name with
  | none => simp [defaultFlushTimeout, eq_comm]
  | some value =>
    dsimp only
    rw [← parseWord?_eq_some]
    cases parseWord? value <;> simp

/-- The flush timeout that is refused. -/
theorem readTimeout_eq_error : readTimeout ps = .error e ↔
    ∃ value, HasValue ps ConfigField.flushTimeout.name value ∧ ¬ Spells .flushTimeout value ∧
      e = .invalidValue .flushTimeout value := by
  simp only [← present?_eq_some, Spells, ← parseWord?_eq_some]
  rw [readTimeout]
  cases present? ps ConfigField.flushTimeout.name with
  | none => simp
  | some value =>
    dsimp only
    cases hword : parseWord? value with
    | none => simp [hword, eq_comm]
    | some m => simp [hword]

/-- A value has no blanks around it. -/
theorem HasValue.trim_eq (h : HasValue ps name value) : trim value = value := by
  obtain ⟨raw, -, hcore, -⟩ := h
  rw [← trim_eq_iff.mpr hcore, trim_trim]

/-- The converter that is read. -/
theorem readConverter_eq_ok : readConverter ps field default = .ok kind ↔
    Says ps field.name (SameLetters · kind.name) (kind = default) := by
  rw [says_iff, readConverter]
  cases hpresent : present? ps field.name with
  | none => simp [eq_comm]
  | some value =>
    dsimp only
    rw [← parse?_eq_some (present?_eq_some.mp hpresent).trim_eq]
    cases ConverterKind.parse? value <;> simp

/-- The converter that is refused. -/
theorem readConverter_eq_error : readConverter ps field default = .error e ↔
    ∃ value, HasValue ps field.name value ∧
      (¬ ∃ kind : ConverterKind, SameLetters value kind.name) ∧ e = .invalidValue field value := by
  rw [readConverter]
  cases hpresent : present? ps field.name with
  | none =>
    have habsent := present?_eq_none.mp hpresent
    simp only [reduceCtorEq, false_iff]
    rintro ⟨value, hvalue, -⟩
    exact habsent ⟨value, hvalue⟩
  | some value =>
    have hvalue := present?_eq_some.mp hpresent
    have hunique : ∀ value', HasValue ps field.name value' ↔ value = value' := fun value' =>
      ⟨hvalue.unique, fun h => h ▸ hvalue⟩
    simp only [hunique, exists_eq_left', ← parse?_eq_some hvalue.trim_eq]
    cases ConverterKind.parse? value with
    | none => simp [eq_comm]
    | some kind => simp

/-- **What is read** is the configuration that the properties describe. -/
theorem ofProperties_eq_ok : ofProperties ps = .ok config ↔ Describes ps config := by
  have hnames : ∀ name text, Says ps name (· = text) (text = "") ↔
      (present? ps name).getD "" = text := fun name text => by
    rw [says_iff]
    cases present? ps name <;> simp [eq_comm]
  constructor
  · intro h
    rw [ofProperties] at h
    split at h
    · cases h
    · rename_i timeout htimeout
      split at h
      · cases h
      · rename_i keyKind hkey
        split at h
        · cases h
        · rename_i valueKind hvalue
          cases h
          exact ⟨(hnames _ _).mpr rfl, (hnames _ _).mpr rfl, readTimeout_eq_ok.mp htimeout,
            readConverter_eq_ok.mp hkey, readConverter_eq_ok.mp hvalue, rfl⟩
  · rintro ⟨hname, hclass, htimeout, hkey, hvalue, hproperties⟩
    rw [ofProperties, readTimeout_eq_ok.mpr htimeout]
    dsimp only
    rw [readConverter_eq_ok.mpr hkey]
    dsimp only
    rw [readConverter_eq_ok.mpr hvalue]
    dsimp only
    rw [(hnames _ _).mp hname, (hnames _ _).mp hclass, ← hproperties]

/-- What a property says can be read if what it may say can. -/
theorem Says.readable {so : String → Prop} {byDefault : Prop}
    (h : Says ps field.name so byDefault) (hso : ∀ value, so value → Spells field value) :
    Readable ps field := by
  intro value hvalue
  obtain ⟨value', hvalue', h⟩ | ⟨habsent, -⟩ := h
  · exact hvalue.unique hvalue' ▸ hso value' h
  · exact absurd ⟨value, hvalue⟩ habsent

/-- The properties that describe a configuration can be read. -/
theorem Describes.readable (h : Describes ps config) (field : ConfigField) : Readable ps field := by
  cases field with
  | flushTimeout => exact h.flushTimeout.readable fun _ hn => ⟨_, hn⟩
  | keyConverter => exact h.keyConverter.readable fun _ hkind => ⟨_, hkind⟩
  | valueConverter => exact h.valueConverter.readable fun _ hkind => ⟨_, hkind⟩

/-- An error is about the first property that cannot be read. -/
theorem firstUnreadable_of_ofProperties (h : ofProperties ps = .error e) :
    ∃ field value, FirstUnreadable ps field value ∧ e = .invalidValue field value := by
  rw [ofProperties] at h
  split at h
  · rename_i htimeout
    cases h
    obtain ⟨value, hvalue, hnot, he⟩ := readTimeout_eq_error.mp htimeout
    exact ⟨_, value, ⟨hvalue, hnot, fun _ hlt => absurd hlt (Nat.not_lt_zero _)⟩, he⟩
  · rename_i timeout htimeout
    have hfirst : Readable ps .flushTimeout :=
      (readTimeout_eq_ok.mp htimeout).readable fun _ hn => ⟨_, hn⟩
    split at h
    · rename_i hkey
      cases h
      obtain ⟨value, hvalue, hnot, he⟩ := readConverter_eq_error.mp hkey
      refine ⟨_, value, ⟨hvalue, hnot, fun earlier hlt => ?_⟩, he⟩
      cases earlier with
      | flushTimeout => exact hfirst
      | keyConverter | valueConverter => simp [rank] at hlt
    · rename_i kind hkey
      have hsecond : Readable ps .keyConverter :=
        (readConverter_eq_ok.mp hkey).readable fun _ hkind => ⟨_, hkind⟩
      split at h
      · rename_i hvalue
        cases h
        obtain ⟨value, hvalue, hnot, he⟩ := readConverter_eq_error.mp hvalue
        refine ⟨_, value, ⟨hvalue, hnot, fun earlier hlt => ?_⟩, he⟩
        cases earlier with
        | flushTimeout => exact hfirst
        | keyConverter => exact hsecond
        | valueConverter => simp [rank] at hlt
      · cases h

/-- There is one first property that cannot be read. -/
theorem FirstUnreadable.unique {field' : ConfigField} {value' : String}
    (h : FirstUnreadable ps field value) (h' : FirstUnreadable ps field' value') :
    field = field' ∧ value = value' := by
  have hrank : rank field = rank field' := by
    apply Nat.le_antisymm <;> by_contra hlt
    · exact h'.unreadable (h.first field' (by omega) value' h'.hasValue)
    · exact h.unreadable (h'.first field (by omega) value h.hasValue)
  have hfield : field = field' := by
    cases field <;> cases field' <;> first | rfl | cases hrank
  subst hfield
  exact ⟨rfl, h.hasValue.unique h'.hasValue⟩

/-- **Properties are read** if each of the three that may be unreadable can be read. -/
theorem exists_ofProperties_iff :
    (∃ config, ofProperties ps = .ok config) ↔ ∀ field, Readable ps field := by
  constructor
  · rintro ⟨config, h⟩
    exact (ofProperties_eq_ok.mp h).readable
  · intro hall
    cases h : ofProperties ps with
    | ok config => exact ⟨config, rfl⟩
    | error e =>
      obtain ⟨field, value, hfirst, -⟩ := firstUnreadable_of_ofProperties h
      exact absurd (hall field value hfirst.hasValue) hfirst.unreadable

/-- **What is refused** is the first property that cannot be read. -/
theorem ofProperties_eq_error : ofProperties ps = .error e ↔
    ∃ field value, FirstUnreadable ps field value ∧ e = .invalidValue field value := by
  refine ⟨firstUnreadable_of_ofProperties, ?_⟩
  rintro ⟨field, value, hfirst, rfl⟩
  cases h : ofProperties ps with
  | ok config =>
    exact absurd ((ofProperties_eq_ok.mp h).readable field value hfirst.hasValue) hfirst.unreadable
  | error e =>
    obtain ⟨field', value', hfirst', rfl⟩ := firstUnreadable_of_ofProperties h
    obtain ⟨rfl, rfl⟩ := hfirst.unique hfirst'
    rfl

/-! ### Validation -/

/-- A configuration passes validation if it lacks nothing. -/
theorem validate_eq_ok : config.validate = .ok () ↔
    config.name ≠ "" ∧ config.connectorClass ≠ "" ∧ config.flushTimeout ≠ 0 := by
  rw [validate, problems]
  by_cases hname : config.name = "" <;> by_cases hclass : config.connectorClass = "" <;>
    by_cases htimeout : config.flushTimeout = 0 <;> simp [hname, hclass, htimeout]

/-! ### Blanks -/

/-- What is found under a recognised name is the same if there are more blanks around it. -/
theorem present?_of_pads (h : Pads ps ps') (hname : name ∈ recognised) :
    present? ps' name = present? ps name := by
  obtain ⟨before, after, hbefore, hafter, hget⟩ := h name hname
  rw [present?, present?, hget]
  cases Dictionary.get? name ps with
  | none => rfl
  | some raw =>
    dsimp only [Option.map_some]
    rw [trim_padded hbefore hafter]

/-- The name of a field is recognised. -/
theorem name_mem_recognised (field : ConfigField) : field.name ∈ recognised := by
  cases field <;> decide

/-- **More blanks around recognised values** change nothing but the properties. -/
theorem ofProperties_of_pads (h : Pads ps ps') :
    ofProperties ps' = (ofProperties ps).map fun config => { config with properties := ps' } := by
  have htimeout : readTimeout ps' = readTimeout ps := by
    rw [readTimeout, readTimeout, present?_of_pads h (name_mem_recognised _)]
  have hconverter : ∀ field default,
      readConverter ps' field default = readConverter ps field default := fun field default => by
    rw [readConverter, readConverter, present?_of_pads h (name_mem_recognised _)]
  rw [ofProperties, ofProperties, htimeout, hconverter, hconverter,
    present?_of_pads h (by decide : "name" ∈ recognised),
    present?_of_pads h (by decide : "connector.class" ∈ recognised)]
  cases readTimeout ps with
  | error e => rfl
  | ok timeout =>
    cases readConverter ps .keyConverter .string with
    | error e => rfl
    | ok keyKind =>
      cases readConverter ps .valueConverter .json with
      | error e => rfl
      | ok valueKind => rfl

/-- **Acceptance is exact.** Properties are read if and only if the flush timeout is absent or
spells a number of 64 bits, and each converter is absent or named in any mix of ASCII cases; an
error is about the first of the three that cannot be read, and shows its value. What is read is what
the properties describe, with all of them unchanged, and it passes validation if and only if name
and connector class are present and the timeout is not zero. More blanks around recognised values
change nothing but the properties. -/
theorem accepts_exactly (ps : Properties) :
    ((∃ config, ofProperties ps = .ok config) ↔ ∀ field, Readable ps field) ∧
    (∀ e, ofProperties ps = .error e ↔
      ∃ field value, FirstUnreadable ps field value ∧ e = .invalidValue field value) ∧
    (∀ config, ofProperties ps = .ok config ↔ Describes ps config) ∧
    (∀ config, ofProperties ps = .ok config → (config.validate = .ok () ↔
      IsPresent ps "name" ∧ IsPresent ps "connector.class" ∧ config.flushTimeout ≠ 0)) ∧
    (∀ ps', Pads ps ps' →
      ofProperties ps' =
        (ofProperties ps).map fun config => { config with properties := ps' }) := by
  refine ⟨exists_ofProperties_iff, fun e => ofProperties_eq_error,
    fun config => ofProperties_eq_ok, fun config h => ?_, fun ps' => ofProperties_of_pads⟩
  have hdescribes := ofProperties_eq_ok.mp h
  rw [validate_eq_ok, Ne, hdescribes.name.eq_empty_iff, not_not, Ne,
    hdescribes.connectorClass.eq_empty_iff, not_not]

/-- A timeout with a sign, leading zeros and blanks around it, beside a converter in mixed case. -/
theorem accepts_signed_timeout_in_blanks :
    let ps : Properties := [("connector.class", "pg"), ("internal.key.converter", "JsOn"),
      ("name", "inventory"), ("offset.flush.timeout.ms", "+00250")]
    let ps' : Properties := [("connector.class", "pg\t"), ("internal.key.converter", "\u00a0JsOn"),
      ("name", "\u2003inventory "), ("offset.flush.timeout.ms", "\n+00250\u3000")]
    let config : Config :=
      { name := "inventory", connectorClass := "pg", flushTimeout := 250, keyConverter := .json
        valueConverter := .json, properties := ps }
    Pads ps ps' ∧ ofProperties ps' = .ok { config with properties := ps' } ∧
      config.validate = .ok () := by
  intro ps ps' config
  have hread : ofProperties ps = .ok config := by decide +kernel
  have hpads : Pads ps ps' := by
    have hblank : ∀ cs : List Char, cs.all isBlank = true → AllBlank cs := fun cs h c hc =>
      List.all_eq_true.mp h c hc
    intro name hname
    simp only [recognised, List.mem_cons, List.not_mem_nil, or_false] at hname
    rcases hname with rfl | rfl | rfl | rfl | rfl
    · exact ⟨['\u2003'], [' '], hblank _ rfl, hblank _ rfl, by decide +kernel⟩
    · exact ⟨[], ['\t'], hblank _ rfl, hblank _ rfl, by decide +kernel⟩
    · exact ⟨['\n'], ['\u3000'], hblank _ rfl, hblank _ rfl, by decide +kernel⟩
    · exact ⟨['\u00a0'], [], hblank _ rfl, hblank _ rfl, by decide +kernel⟩
    · exact ⟨[], [], hblank _ rfl, hblank _ rfl, by decide +kernel⟩
  obtain ⟨-, -, -, hvalid, hsame⟩ := accepts_exactly ps
  refine ⟨hpads, ?_, (hvalid config hread).mpr ⟨?_, ?_, by decide⟩⟩
  · rw [hsame ps' hpads, hread]
    rfl
  · exact ⟨"inventory", present?_eq_some.mp (by decide +kernel)⟩
  · exact ⟨"pg", present?_eq_some.mp (by decide +kernel)⟩

end Config

end ChangeCapture
