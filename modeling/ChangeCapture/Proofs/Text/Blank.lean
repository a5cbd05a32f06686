import ChangeCapture.Text.Blank
import Mathlib.Data.List.DropRight
import Mathlib.Data.String.Basic

/-!
# Texts without the blanks around them

A text is its core with blanks before and after it, where the core neither begins nor ends with a
blank. There is one such core, and trimming finds it. So further blanks around a text change
nothing of what trimming leaves.

## Main definitions

* `AllBlank`, `padded`: blanks, and a text with blanks around it.
* `IsCore`: what is left of a text.

## Main results

* `trim_eq_iff` — trimming leaves the core.
* `trim_padded` — it leaves the same of a text with more blanks around it.
-/

namespace ChangeCapture

/-- All of some characters are blank. -/
def AllBlank (cs : List Char) : Prop :=
  ∀ c ∈ cs, isBlank c = true

/-- A text with characters before and after it. -/
def padded (before : List Char) (text : String) (after : List Char) : String :=
  String.ofList (before ++ text.toList ++ after)

/-- **What is left of a text** without the blanks around it. -/
structure IsCore (text core : String) : Prop where
  around : ∃ before after, AllBlank before ∧ AllBlank after ∧ text = padded before core after
  head : ∀ c ∈ core.toList.head?, isBlank c = false
  last : ∀ c ∈ core.toList.getLast?, isBlank c = false

variable {before after cs : List Char} {text core : String}

/-- Blanks are dropped up to what follows them. -/
theorem dropWhile_isBlank_append (h : AllBlank before) (cs : List Char) :
    (before ++ cs).dropWhile isBlank = cs.dropWhile isBlank :=
  List.dropWhile_append_of_pos h

/-- Trimming drops blanks from the left and then from the right. -/
theorem trimChars_eq (cs : List Char) :
    trimChars cs = (cs.dropWhile isBlank).rdropWhile isBlank := rfl

/-- Blanks at the end are dropped with those before them. -/
theorem rdropWhile_append_isBlank (cs : List Char) (h : AllBlank after) :
    (cs ++ after).rdropWhile isBlank = cs.rdropWhile isBlank := by
  rw [List.rdropWhile, List.reverse_append,
    dropWhile_isBlank_append fun c hc => h c (List.mem_reverse.mp hc)]
  rfl

/-- Of nothing but blanks, nothing is left. -/
theorem trimChars_of_allBlank (h : AllBlank cs) : trimChars cs = [] := by
  rw [trimChars_eq, List.dropWhile_eq_nil_iff.mpr h]
  rfl

/-- **Blanks around characters change nothing** of what trimming leaves. -/
theorem trimChars_append (hbefore : AllBlank before) (hafter : AllBlank after) (cs : List Char) :
    trimChars (before ++ cs ++ after) = trimChars cs := by
  by_cases hcs : AllBlank cs
  · have hall : AllBlank (before ++ cs ++ after) := by
      simp only [AllBlank, List.mem_append]
      rintro c ((hc | hc) | hc)
      · exact hbefore c hc
      · exact hcs c hc
      · exact hafter c hc
    rw [trimChars_of_allBlank hcs, trimChars_of_allBlank hall]
  · -- Something is left on the left, so what follows is not reached from there.
    have hdrop : (cs ++ after).dropWhile isBlank = cs.dropWhile isBlank ++ after := by
      rw [List.dropWhile_append, if_neg]
      simpa [List.isEmpty_iff, AllBlank] using hcs
    rw [trimChars_eq, List.append_assoc, dropWhile_isBlank_append hbefore, hdrop,
      rdropWhile_append_isBlank _ hafter, trimChars_eq]

/-- Characters that neither begin nor end with a blank are left as they are. -/
theorem trimChars_eq_self (hhead : ∀ c ∈ cs.head?, isBlank c = false)
    (hlast : ∀ c ∈ cs.getLast?, isBlank c = false) : trimChars cs = cs := by
  cases cs with
  | nil => rfl
  | cons c cs =>
    have hc : ¬ isBlank c = true := by simpa using hhead c rfl
    rw [trimChars_eq, List.dropWhile_cons_of_neg hc, List.rdropWhile_eq_self_iff]
    intro hne
    simpa using hlast _ (List.getLast?_eq_getLast_of_ne_nil hne)

/-- What is dropped is blank. -/
theorem exists_append_trimChars (cs : List Char) :
    ∃ before after, AllBlank before ∧ AllBlank after ∧ cs = before ++ trimChars cs ++ after := by
  refine ⟨cs.takeWhile isBlank, (cs.dropWhile isBlank).rtakeWhile isBlank,
    fun c hc => List.mem_takeWhile_imp hc, fun c hc => List.mem_rtakeWhile_imp hc, ?_⟩
  rw [trimChars_eq, List.append_assoc, List.rdropWhile_append_rtakeWhile,
    List.takeWhile_append_dropWhile]

/-- What is left does not begin with a blank. -/
theorem head_trimChars {c : Char} (h : c ∈ (trimChars cs).head?) : isBlank c = false := by
  obtain ⟨rest, hrest⟩ := List.rdropWhile_prefix isBlank (cs.dropWhile isBlank)
  rw [← trimChars_eq] at hrest
  have hne : cs.dropWhile isBlank ≠ [] := by
    rintro hnil
    rw [trimChars_eq, hnil] at h
    cases h
  have hhead : (cs.dropWhile isBlank).head? = some c := by
    rw [← hrest, List.head?_append, Option.mem_def.mp h]
    rfl
  rw [List.head?_eq_some_head hne, Option.some.injEq] at hhead
  exact hhead ▸ List.head_dropWhile_not isBlank hne

/-- What is left does not end with a blank. -/
theorem last_trimChars {c : Char} (h : c ∈ (trimChars cs).getLast?) : isBlank c = false := by
  have hne : trimChars cs ≠ [] := by
    rintro hnil
    rw [hnil] at h
    cases h
  have hlast : (trimChars cs).getLast hne = c := by
    rwa [List.getLast?_eq_getLast_of_ne_nil hne, Option.mem_some_iff] at h
  rw [← hlast]
  exact Bool.eq_false_iff.mpr (List.rdropWhile_last_not isBlank (cs.dropWhile isBlank) hne)

/-- **Trimming leaves the core** of a text. -/
theorem trim_eq_iff : trim text = core ↔ IsCore text core := by
  constructor
  · rintro rfl
    obtain ⟨before, after, hbefore, hafter, htext⟩ := exists_append_trimChars text.toList
    refine ⟨⟨before, after, hbefore, hafter, ?_⟩, fun c hc => ?_, fun c hc => ?_⟩
    · rw [padded, trim, String.toList_ofList, ← htext, String.ofList_toList]
    · rw [trim, String.toList_ofList] at hc
      exact head_trimChars hc
    · rw [trim, String.toList_ofList] at hc
      exact last_trimChars hc
  · rintro ⟨⟨before, after, hbefore, hafter, rfl⟩, hhead, hlast⟩
    rw [trim, padded, String.toList_ofList, trimChars_append hbefore hafter,
      trimChars_eq_self hhead hlast, String.ofList_toList]

/-- **More blanks around a text** change nothing of what trimming leaves. -/
theorem trim_padded (hbefore : AllBlank before) (hafter : AllBlank after) (text : String) :
    trim (padded before text after) = trim text := by
  rw [trim, padded, String.toList_ofList, trimChars_append hbefore hafter, trim]

/-- What is left once is left as it is. -/
theorem trim_trim (text : String) : trim (trim text) = trim text := by
  have h := trim_eq_iff.mp (rfl : trim text = trim text)
  exact trim_eq_iff.mpr ⟨⟨[], [], by simp [AllBlank], by simp [AllBlank], by simp [padded]⟩,
    h.head, h.last⟩

end ChangeCapture
