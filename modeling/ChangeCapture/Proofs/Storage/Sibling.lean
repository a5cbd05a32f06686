import Mathlib.Data.List.TakeWhile
import ChangeCapture.Storage.FileStore

/-!
# The temporary sibling of a path

The sibling under which new content is written differs from the path in its last name alone: both
lead through the same directory, and the sibling's name ends in the extension `tmp`. So the two
names differ unless that is the extension of the path itself.

Reading a path backwards, slashes and lone dots come first that say nothing, then the last name, and
then what leads to its directory. The lemmas take a path apart in this order.

## Main definitions

* `FilePath.componentsIn`: the components of a text.

## Main results

* `FilePath.exists_parts` — a path as what leads to its directory, its name and what says nothing.
* `FilePath.components_of_fileName?`, `FileStore.components_temporary` — a path and its temporary
  sibling share what leads to their directory.
-/

namespace ChangeCapture

namespace FilePath

variable {before after r cs name stem ext : List Char} {p : FilePath}

/-! ### Components of texts -/

/-- The components of a text. -/
def componentsIn (cs : List Char) : List String :=
  (splitSlashes cs).filterMap fun part =>
    if part.isEmpty then none else some (String.ofList part)

theorem components_ofList (cs : List Char) : components ⟨String.ofList cs⟩ = componentsIn cs := by
  rw [components, String.toList_ofList, componentsIn]

theorem splitSlashes_ne_nil (cs : List Char) : splitSlashes cs ≠ [] := by
  cases cs with
  | nil => exact List.cons_ne_nil _ _
  | cons c cs =>
    rw [splitSlashes]
    split
    · exact List.cons_ne_nil _ _
    · split <;> exact List.cons_ne_nil _ _

/-- A slash splits a text in two. -/
theorem splitSlashes_append (before after : List Char) :
    splitSlashes (before ++ '/' :: after) = splitSlashes before ++ splitSlashes after := by
  induction before with
  | nil => rfl
  | cons c cs ih =>
    rw [List.cons_append, splitSlashes, splitSlashes, ih]
    split
    · rfl
    · cases hcs : splitSlashes cs with
      | nil => exact absurd hcs (splitSlashes_ne_nil cs)
      | cons part parts => rfl

theorem splitSlashes_of_not_mem (h : '/' ∉ cs) : splitSlashes cs = [cs] := by
  induction cs with
  | nil => rfl
  | cons c cs ih =>
    have hc : c ≠ '/' := fun heq => h (heq ▸ List.mem_cons_self)
    rw [splitSlashes, if_neg hc, ih fun hcs => h (List.mem_cons_of_mem c hcs)]

theorem componentsIn_append_slash (before after : List Char) :
    componentsIn (before ++ '/' :: after) = componentsIn before ++ componentsIn after := by
  rw [componentsIn, splitSlashes_append, List.filterMap_append]
  rfl

/-- A text without a slash is one component. -/
theorem componentsIn_name (h : '/' ∉ name) (hne : name ≠ []) :
    componentsIn name = [String.ofList name] := by
  rw [componentsIn, splitSlashes_of_not_mem h]
  simp [hne]

/-- A text may be cut before a slash. -/
theorem componentsIn_append_of_head (h : ∀ c ∈ after.head?, c = '/') (cs : List Char) :
    componentsIn (cs ++ after) = componentsIn cs ++ componentsIn after := by
  cases after with
  | nil => rw [List.append_nil]; exact (List.append_nil _).symm
  | cons c tail =>
    obtain rfl : c = '/' := h c rfl
    rw [componentsIn_append_slash, ← List.nil_append ('/' :: tail), componentsIn_append_slash]
    rfl

/-- A text may be cut behind a slash; here the first part is read backwards. -/
theorem componentsIn_append_of_reverse (h : ∀ c ∈ before.head?, c = '/') (cs : List Char) :
    componentsIn (before.reverse ++ cs) = componentsIn before.reverse ++ componentsIn cs := by
  cases before with
  | nil => rfl
  | cons c tail =>
    obtain rfl : c = '/' := h c rfl
    rw [List.reverse_cons, List.append_assoc, List.singleton_append, componentsIn_append_slash,
      componentsIn_append_slash, List.append_assoc]
    rfl

/-! ### What says nothing -/

/-- A text read backwards starts with a part that is dropped. -/
theorem exists_idle (cs : List Char) : ∃ r, dropIdle r = [] ∧ cs = r ++ dropIdle cs := by
  induction cs using dropIdle.induct with
  | case1 cs ih =>
    obtain ⟨r, hr, hcs⟩ := ih
    exact ⟨'/' :: r, hr, congrArg ('/' :: ·) hcs⟩
  | case2 cs ih =>
    obtain ⟨r, hr, hcs⟩ := ih
    exact ⟨'.' :: '/' :: r, hr, congrArg ('.' :: '/' :: ·) hcs⟩
  | case3 cs hslash hdot => exact ⟨[], rfl, (dropIdle.eq_3 cs hslash hdot).symm⟩

theorem dropIdle_append (h : dropIdle r = []) (cs : List Char) :
    dropIdle (r ++ cs) = dropIdle cs := by
  induction r using dropIdle.induct with
  | case1 r ih => exact ih h
  | case2 r ih => exact ih h
  | case3 r hslash hdot =>
    rw [dropIdle.eq_3 r hslash hdot] at h
    rw [h, List.nil_append]

/-- What is left of a part that is dropped is dropped. -/
theorem dropIdle_drop (h : dropIdle r = []) (n : Nat) : dropIdle (r.drop n) = [] := by
  induction r using dropIdle.induct generalizing n with
  | case1 r ih =>
    cases n with
    | zero => exact h
    | succ n => exact ih h n
  | case2 r ih =>
    cases n with
    | zero => exact h
    | succ n =>
      cases n with
      | zero => exact h
      | succ n => exact ih h n
  | case3 r hslash hdot =>
    rw [dropIdle.eq_3 r hslash hdot] at h
    rw [h, List.drop_nil]
    rfl

/-- What is dropped starts with a slash. -/
theorem eq_slash_of_idle (h : dropIdle r = []) : ∀ c ∈ r.reverse.head?, c = '/' := by
  induction r using dropIdle.induct with
  | case1 r ih =>
    intro c hc
    rw [List.reverse_cons] at hc
    cases hr : r.reverse with
    | nil => rw [hr] at hc; exact (Option.some.inj hc).symm
    | cons d ds => rw [hr] at hc; exact ih h c (hr ▸ hc)
  | case2 r ih =>
    intro c hc
    rw [List.reverse_cons, List.reverse_cons] at hc
    cases hr : r.reverse with
    | nil => rw [hr] at hc; exact (Option.some.inj hc).symm
    | cons d ds => rw [hr] at hc; exact ih h c (hr ▸ hc)
  | case3 r hslash hdot =>
    rw [dropIdle.eq_3 r hslash hdot] at h
    rw [h]
    rintro _ ⟨⟩

/-- What is dropped has no component but lone dots. -/
theorem eq_dot_of_idle (h : dropIdle r = []) : ∀ c ∈ componentsIn r.reverse, c = "." := by
  induction r using dropIdle.induct with
  | case1 r ih =>
    rw [List.reverse_cons, componentsIn_append_slash]
    exact fun c hc => ih h c ((List.mem_append.mp hc).resolve_right (List.not_mem_nil))
  | case2 r ih =>
    rw [List.reverse_cons, List.reverse_cons, List.append_assoc, List.singleton_append,
      componentsIn_append_slash]
    intro c hc
    rcases List.mem_append.mp hc with hc | hc
    · exact ih h c hc
    · exact List.mem_singleton.mp hc
  | case3 r hslash hdot =>
    rw [dropIdle.eq_3 r hslash hdot] at h
    rw [h]
    exact fun c hc => absurd hc List.not_mem_nil

/-- A name of more than one character is not dropped. -/
theorem dropIdle_name (h : '/' ∉ name) (hlen : 2 ≤ name.length) (cs : List Char) :
    dropIdle (name.reverse ++ cs) = name.reverse ++ cs := by
  have hmem : ∀ c ∈ name.reverse, c ≠ '/' := fun c hc heq => h (heq ▸ List.mem_reverse.mp hc)
  rw [← List.length_reverse] at hlen
  obtain ⟨c, rest, hname⟩ := List.exists_cons_of_length_pos (Nat.lt_of_succ_le (Nat.le_of_lt hlen))
  rw [hname] at hmem hlen ⊢
  obtain ⟨d, tail, rfl⟩ := List.exists_cons_of_length_pos (Nat.le_of_succ_le_succ hlen)
  refine dropIdle.eq_3 _ ?_ ?_
  · rintro cs ⟨⟩
    exact hmem _ List.mem_cons_self rfl
  · rintro cs ⟨⟩
    exact hmem _ (List.mem_cons_of_mem _ List.mem_cons_self) rfl

/-! ### The last name -/

theorem slash_not_mem_lastPart (p : FilePath) : '/' ∉ p.lastPart.1.reverse := by
  intro h
  have := List.all_eq_true.mp (List.all_takeWhile (p := (· ≠ '/'))) _ (List.mem_reverse.mp h)
  simp at this

theorem eq_slash_of_lastPart (p : FilePath) : ∀ c ∈ p.lastPart.2.head?, c = '/' := by
  intro c hc
  have hhead := List.head?_dropWhile_not (· ≠ '/') (dropIdle p.text.toList.reverse)
  rw [lastPart, Option.mem_def] at hc
  rw [hc] at hhead
  simpa using hhead

/-- **A path from its end**: what says nothing, the last name, and what leads to its directory. -/
theorem exists_parts (p : FilePath) :
    ∃ r, dropIdle r = [] ∧
      p.text.toList = p.lastPart.2.reverse ++ (p.lastPart.1.reverse ++ r.reverse) := by
  obtain ⟨r, hr, hcs⟩ := exists_idle p.text.toList.reverse
  refine ⟨r, hr, List.reverse_inj.mp ?_⟩
  calc p.text.toList.reverse = r ++ (p.lastPart.1 ++ p.lastPart.2) := by
        rw [lastPart, List.takeWhile_append_dropWhile]
        exact hcs
    _ = _ := by simp

/-- A path that is put together from a name of more than one character has that name. -/
theorem lastPart_ofList (hbefore : ∀ c ∈ before.head?, c = '/') (h : '/' ∉ name)
    (hlen : 2 ≤ name.length) (hr : dropIdle r = []) :
    lastPart ⟨String.ofList (before.reverse ++ (name ++ r.reverse))⟩ = (name.reverse, before) := by
  have hrev : (before.reverse ++ (name ++ r.reverse)).reverse = r ++ (name.reverse ++ before) := by
    simp
  have hname : ∀ c ∈ name.reverse, decide (c ≠ '/') = true :=
    fun c hc => decide_eq_true fun heq => h (heq ▸ List.mem_reverse.mp hc)
  rw [lastPart, String.toList_ofList, hrev, dropIdle_append hr, dropIdle_name h hlen]
  rw [List.takeWhile_append_of_pos hname, List.dropWhile_append_of_pos hname]
  cases before with
  | nil => rw [List.takeWhile_nil, List.dropWhile_nil, List.append_nil]
  | cons c tail =>
    obtain rfl : c = '/' := hbefore c rfl
    rw [List.takeWhile_cons_of_neg (by simp), List.dropWhile_cons_of_neg (by simp),
      List.append_nil]

theorem splitExtension_append (hstem : stem ≠ []) (h : '.' ∉ ext) :
    splitExtension (stem ++ '.' :: ext) = (stem, some ext) := by
  have hext : ∀ c ∈ ext.reverse, decide (c ≠ '.') = true :=
    fun c hc => decide_eq_true fun heq => h (heq ▸ List.mem_reverse.mp hc)
  have hafter : ((stem ++ '.' :: ext).reverse.takeWhile (· ≠ '.')).reverse = ext := by
    rw [List.reverse_append, List.reverse_cons, List.append_assoc,
      List.takeWhile_append_of_pos hext, List.singleton_append,
      List.takeWhile_cons_of_neg (by simp), List.append_nil, List.reverse_reverse]
  have hbefore : (stem ++ '.' :: ext).length - ext.length - 1 = stem.length := by
    rw [List.length_append, List.length_cons]
    omega
  rw [splitExtension, hafter, hbefore, List.take_left, if_neg (by simpa using hstem)]

/-- A name has no extension, or it is what stands before its last dot and what follows it. -/
theorem splitExtension_cases (name : List Char) :
    splitExtension name = (name, none) ∨
    ∃ stem ext, stem ≠ [] ∧ '.' ∉ ext ∧ name = stem ++ '.' :: ext ∧
      splitExtension name = (stem, some ext) := by
  have hsplit : name.reverse.takeWhile (· ≠ '.') ++ name.reverse.dropWhile (· ≠ '.') =
      name.reverse := List.takeWhile_append_dropWhile
  have hext : '.' ∉ (name.reverse.takeWhile (· ≠ '.')).reverse := by
    intro h
    have := List.all_eq_true.mp (List.all_takeWhile (p := (· ≠ '.'))) _ (List.mem_reverse.mp h)
    simp at this
  have hhead := List.head?_dropWhile_not (· ≠ '.') name.reverse
  cases hrest : name.reverse.dropWhile (· ≠ '.') with
  | nil =>
    rw [hrest, List.append_nil] at hsplit
    refine .inl ?_
    rw [splitExtension, hsplit]
    simp
  | cons c rest =>
    rw [hrest] at hhead hsplit
    obtain rfl : c = '.' := by simpa using hhead
    have hname : name = rest.reverse ++ '.' :: (name.reverse.takeWhile (· ≠ '.')).reverse := by
      rw [← List.reverse_inj, List.reverse_append, List.reverse_cons, List.reverse_reverse,
        List.reverse_reverse, List.append_assoc]
      exact hsplit.symm
    by_cases hstem : rest = []
    · refine .inl ?_
      subst hstem
      have hlen : name.length - (name.reverse.takeWhile (· ≠ '.')).reverse.length - 1 = 0 := by
        have := congrArg List.length hname
        simp only [List.length_append, List.length_reverse, List.length_cons, List.length_nil]
          at this ⊢
        omega
      rw [splitExtension, hlen]
      rfl
    · have hstem : rest.reverse ≠ [] := fun h => hstem (List.reverse_eq_nil_iff.mp h)
      refine .inr ⟨_, _, hstem, hext, hname, ?_⟩
      exact (congrArg splitExtension hname).trans (splitExtension_append hstem hext)

/-- When a path has a file name. -/
theorem fileName?_eq_some : p.fileName? = some name ↔
    p.lastPart.1.reverse = name ∧ name ≠ [] ∧ name ≠ ['.'] ∧ name ≠ ['.', '.'] := by
  rw [fileName?]
  constructor
  · intro h
    split at h
    · cases h
    · rename_i hno
      obtain rfl := Option.some.inj h
      refine ⟨rfl, ?_, ?_, ?_⟩ <;> intro heq <;> exact hno (by simp [heq])
  · rintro ⟨rfl, hne, hdot, hdots⟩
    rw [if_neg (by simp_all)]

/-- What is not dropped does not begin with a slash. -/
theorem head?_dropIdle (cs : List Char) : (dropIdle cs).head? ≠ some '/' := by
  induction cs using dropIdle.induct with
  | case1 cs ih => exact ih
  | case2 cs ih => exact ih
  | case3 cs hslash hdot =>
    rw [dropIdle.eq_3 cs hslash hdot]
    cases cs with
    | nil => rintro ⟨⟩
    | cons c cs =>
      rintro heq
      obtain rfl := Option.some.inj heq
      exact hslash cs rfl

/-- Nothing stands before a last name that is empty. -/
theorem lastPart_eq_nil (h : p.lastPart.1 = []) : p.lastPart.2 = [] := by
  have hsplit : p.lastPart.1 ++ p.lastPart.2 = dropIdle p.text.toList.reverse :=
    List.takeWhile_append_dropWhile
  have hhead := head?_dropIdle p.text.toList.reverse
  rw [← hsplit, h, List.nil_append] at hhead
  cases hbefore : p.lastPart.2 with
  | nil => rfl
  | cons c cs =>
    have hslash := eq_slash_of_lastPart p
    rw [hbefore] at hhead hslash
    exact absurd (congrArg some (hslash c rfl)) hhead

/-- Without a file name the last component is empty, one dot or two. -/
theorem lastPart_of_fileName? (h : p.fileName? = none) :
    p.lastPart.1.reverse = [] ∨ p.lastPart.1.reverse = ['.'] ∨
      p.lastPart.1.reverse = ['.', '.'] := by
  rw [fileName?] at h
  split at h
  · rename_i hstep
    simpa [or_assoc] using hstep
  · cases h

/-- **A path that ends in a name has a file name.** Otherwise its last component is a step. -/
theorem exists_fileName (h : p.endsInName = true) : ∃ name, p.fileName? = some name := by
  refine Option.ne_none_iff_exists'.mp fun hnone => ?_
  have hlast := lastPart_of_fileName? hnone
  obtain ⟨r, hr, htext⟩ := exists_parts p
  have hcomponents : p.components = componentsIn p.lastPart.2.reverse ++
      (componentsIn p.lastPart.1.reverse ++ componentsIn r.reverse) := by
    rw [← componentsIn_append_of_head (eq_slash_of_idle hr),
      ← componentsIn_append_of_reverse (eq_slash_of_lastPart p), ← htext]
    rfl
  have hsteps : ∀ c ∈ componentsIn p.lastPart.1.reverse ++ componentsIn r.reverse,
      isStep c = true := by
    intro c hc
    rcases List.mem_append.mp hc with hc | hc
    · rcases hlast with heq | heq | heq <;> rw [heq] at hc
      · cases hc
      · rw [List.mem_singleton.mp hc]
        rfl
      · rw [List.mem_singleton.mp hc]
        rfl
    · rw [eq_dot_of_idle hr c hc]
      rfl
  rw [endsInName, hcomponents] at h
  by_cases hempty : componentsIn p.lastPart.1.reverse ++ componentsIn r.reverse = []
  · have hname : p.lastPart.1 = [] := by
      rcases hlast with heq | heq | heq
      · exact List.reverse_eq_nil_iff.mp heq
      all_goals
        rw [heq] at hempty
        cases (List.append_eq_nil_iff.mp hempty).1
    rw [hempty, lastPart_eq_nil hname] at h
    cases h
  · rw [List.getLast?_append, List.getLast?_eq_some_getLast hempty, Option.some_or] at h
    dsimp only at h
    rw [hsteps _ (List.getLast_mem hempty)] at h
    cases h

/-- A file name is no step. -/
theorem isStep_of_fileName? (h : p.fileName? = some name) :
    isStep (String.ofList name) = false := by
  obtain ⟨-, -, hdot, hdots⟩ := fileName?_eq_some.mp h
  have hone : "." = String.ofList ['.'] := rfl
  have htwo : ".." = String.ofList ['.', '.'] := rfl
  rw [isStep, Bool.or_eq_false_iff, decide_eq_false_iff_not, decide_eq_false_iff_not, hone, htwo,
    String.ofList_inj, String.ofList_inj]
  exact ⟨hdot, hdots⟩

/-- **A path is what leads to its directory, its name, and lone dots.** -/
theorem components_of_fileName? (h : p.fileName? = some name) :
    ∃ dots, p.components = componentsIn p.lastPart.2.reverse ++ String.ofList name :: dots ∧
      ∀ c ∈ dots, c = "." := by
  obtain ⟨rfl, hne, -, -⟩ := fileName?_eq_some.mp h
  obtain ⟨r, hr, htext⟩ := exists_parts p
  refine ⟨componentsIn r.reverse, ?_, eq_dot_of_idle hr⟩
  calc p.components = componentsIn (p.lastPart.2.reverse ++ (p.lastPart.1.reverse ++ r.reverse)) :=
        congrArg componentsIn htext
    _ = _ := by
      rw [componentsIn_append_of_reverse (eq_slash_of_lastPart p),
        componentsIn_append_of_head (eq_slash_of_idle hr),
        componentsIn_name (slash_not_mem_lastPart p) hne, List.singleton_append]

/-! ### Another extension -/

theorem setExtension_of_fileName? (h : p.fileName? = some name) (extension : List Char) :
    setExtension extension p =
      ⟨String.ofList (p.lastPart.2.reverse ++ ((splitExtension name).1 ++ '.' :: extension))⟩ := by
  rw [setExtension, h]
  dsimp only
  rw [List.append_assoc]

theorem fileName?_ofList (hbefore : ∀ c ∈ before.head?, c = '/') (h : '/' ∉ name)
    (hlen : 2 ≤ name.length) (hdots : name ≠ ['.', '.']) (hr : dropIdle r = []) :
    fileName? ⟨String.ofList (before.reverse ++ (name ++ r.reverse))⟩ = some name := by
  refine fileName?_eq_some.mpr ⟨?_, ?_, ?_, hdots⟩
  · rw [lastPart_ofList hbefore h hlen hr, List.reverse_reverse]
  · rintro rfl
    cases hlen
  · rintro rfl
    exact absurd hlen (by decide)

theorem setExtension_ofList (hbefore : ∀ c ∈ before.head?, c = '/') (h : '/' ∉ name)
    (hlen : 2 ≤ name.length) (hdots : name ≠ ['.', '.']) (hr : dropIdle r = [])
    (extension : List Char) :
    setExtension extension ⟨String.ofList (before.reverse ++ (name ++ r.reverse))⟩ =
      ⟨String.ofList (before.reverse ++ ((splitExtension name).1 ++ '.' :: extension))⟩ := by
  rw [setExtension_of_fileName? (fileName?_ofList hbefore h hlen hdots hr),
    lastPart_ofList hbefore h hlen hr]

/-- Two dots name nothing, so they get no extension. -/
theorem setExtension_dots (hbefore : ∀ c ∈ before.head?, c = '/') (hr : dropIdle r = [])
    (extension : List Char) :
    setExtension extension ⟨String.ofList (before.reverse ++ (['.', '.'] ++ r.reverse))⟩ =
      ⟨String.ofList (before.reverse ++ (['.', '.'] ++ r.reverse))⟩ := by
  have hpart :
      lastPart ⟨String.ofList (before.reverse ++ (['.', '.'] ++ r.reverse))⟩ =
        (['.', '.'], before) := lastPart_ofList hbefore (by decide) le_rfl hr
  have hnone : fileName? ⟨String.ofList (before.reverse ++ (['.', '.'] ++ r.reverse))⟩ = none := by
    rw [fileName?, hpart]
    rfl
  rw [setExtension, hnone]

/-- A part of a text and as much again from its end. -/
theorem take_cut (front ext r : List Char) :
    (front ++ (ext ++ r.reverse)).take ((front ++ (ext ++ r.reverse)).length - ext.length) =
      front ++ (ext.take r.length ++ (r.drop (r.length - (r.length - ext.length))).reverse) := by
  have hlen : (front ++ (ext ++ r.reverse)).length - ext.length = front.length + r.length := by
    simp only [List.length_append, List.length_reverse]
    omega
  rw [hlen, List.take_length_add_append, List.take_append, List.take_reverse]

/-- What a cut leaves, with another extension: what stood before the last dot and the extension, or
two dots, which name nothing and so get none. -/
theorem components_setExtension (hbefore : ∀ c ∈ before.head?, c = '/') (hstem : stem ≠ [])
    (hslash : '/' ∉ stem ++ '.' :: ext) (hdot : '.' ∉ ext) (hr : dropIdle r = [])
    {extension : List Char} (hextension : '/' ∉ extension) :
    ∃ sibling dots,
      (setExtension extension
          ⟨String.ofList (before.reverse ++ ((stem ++ '.' :: ext) ++ r.reverse))⟩).components =
        componentsIn before.reverse ++ String.ofList sibling :: dots ∧
      (∀ c ∈ dots, c = ".") ∧
      (sibling = ['.', '.'] ∨ sibling = stem ++ '.' :: extension) := by
  by_cases hleft : stem ++ '.' :: ext = ['.', '.']
  · refine ⟨['.', '.'], componentsIn r.reverse, ?_, eq_dot_of_idle hr, .inl rfl⟩
    rw [hleft, setExtension_dots hbefore hr, components_ofList,
      componentsIn_append_of_reverse hbefore, componentsIn_append_of_head (eq_slash_of_idle hr)]
    rfl
  · refine ⟨stem ++ '.' :: extension, [], ?_, fun c hc => absurd hc List.not_mem_nil, .inr rfl⟩
    have hlen : 2 ≤ (stem ++ '.' :: ext).length := by
      have := List.length_pos_iff.mpr hstem
      simp only [List.length_append, List.length_cons]
      omega
    have hmem : '/' ∉ stem ++ '.' :: extension := by
      have hstemslash : '/' ∉ stem := fun hmem => hslash (List.mem_append_left _ hmem)
      simp [hstemslash, hextension]
    rw [setExtension_ofList hbefore hslash hlen hleft hr, splitExtension_append hstem hdot,
      components_ofList, componentsIn_append_of_reverse hbefore, componentsIn_name hmem (by simp)]

/-- **The components of a sibling.** The name is what stood before the extension with the new one
behind it, unless cutting off the old one left two dots. -/
theorem components_withExtension (h : p.fileName? = some name) (extension : String)
    (hslash : '/' ∉ extension.toList) :
    ∃ sibling dots, (p.withExtension extension).components =
        componentsIn p.lastPart.2.reverse ++ String.ofList sibling :: dots ∧
      (∀ c ∈ dots, c = ".") ∧
      (sibling = ['.', '.'] ∨ sibling = (splitExtension name).1 ++ '.' :: extension.toList) := by
  obtain ⟨hn, hne, -, -⟩ := fileName?_eq_some.mp h
  have hname : '/' ∉ name := hn ▸ slash_not_mem_lastPart p
  have hbefore := eq_slash_of_lastPart p
  rcases splitExtension_cases name with hsplit | ⟨stem, ext, hstem, hext, hnm, hsplit⟩
  · have hnone : p.extensionOf = none := by rw [extensionOf, h, Option.bind_some, hsplit]
    have hmem : '/' ∉ name ++ '.' :: extension.toList := by simp [hname, hslash]
    refine ⟨name ++ '.' :: extension.toList, [], ?_, fun c hc => absurd hc List.not_mem_nil,
      .inr (by rw [hsplit])⟩
    rw [withExtension, hnone]
    dsimp only
    rw [setExtension_of_fileName? h, hsplit, components_ofList,
      componentsIn_append_of_reverse hbefore, componentsIn_name hmem (by simp)]
  · have hold : p.extensionOf = some ext := by rw [extensionOf, h, Option.bind_some, hsplit]
    obtain ⟨r, hr, htext⟩ := exists_parts p
    -- What is left of the path when its extension is cut off its end.
    have hcut : p.text.toList.take (p.text.length - ext.length) = p.lastPart.2.reverse ++
        ((stem ++ '.' :: ext.take r.length) ++
          (r.drop (r.length - (r.length - ext.length))).reverse) := by
      have := take_cut (p.lastPart.2.reverse ++ (stem ++ ['.'])) ext r
      rw [← String.length_toList, htext, hn, hnm]
      simpa using this
    have hmem : '/' ∉ stem ++ '.' :: ext.take r.length := by
      have htake : ∀ c ∈ ext.take r.length, c ∈ ext := fun c => List.mem_of_mem_take
      intro hc
      refine hname (hnm ▸ ?_)
      simp only [List.mem_append, List.mem_cons] at hc ⊢
      exact hc.imp_right fun hc => hc.imp_right (htake _)
    rw [withExtension, hold]
    dsimp only
    rw [hcut, hsplit]
    exact components_setExtension hbefore hstem hmem (fun hc => hext (List.mem_of_mem_take hc))
      (dropIdle_drop hr _) hslash

end FilePath

namespace FileStore

variable {path : FilePath} {name : List Char}

/-- **A path and its temporary sibling differ in their names alone**, if the extension of the path
is another. -/
theorem components_temporary (h : path.fileName? = some name)
    (hext : path.extensionOf ≠ some "tmp".toList) :
    ∃ sibling dots, (temporary path).components =
        FilePath.componentsIn path.lastPart.2.reverse ++ String.ofList sibling :: dots ∧
      (∀ c ∈ dots, c = ".") ∧ sibling ≠ name := by
  obtain ⟨sibling, dots, hcomponents, hdots, hsibling⟩ :=
    FilePath.components_withExtension h "tmp" (by decide)
  refine ⟨sibling, dots, hcomponents, hdots, ?_⟩
  obtain ⟨-, -, -, hname⟩ := FilePath.fileName?_eq_some.mp h
  rcases hsibling with rfl | rfl
  · exact Ne.symm hname
  · rw [FilePath.extensionOf, h, Option.bind_some] at hext
    rcases FilePath.splitExtension_cases name with hsplit | ⟨stem, ext, -, -, rfl, hsplit⟩
    · rw [hsplit]
      simp
    · rw [hsplit] at hext ⊢
      intro heq
      have hcons := List.append_cancel_left heq
      exact hext (congrArg some (List.cons.inj hcons).2.symm)

end FileStore

end ChangeCapture
