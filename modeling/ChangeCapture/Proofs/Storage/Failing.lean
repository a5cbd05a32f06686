import ChangeCapture.Proofs.Storage.Crash

/-!
# Writes that fail

A call that adds entries to a file store first makes them known to the store and then writes all
that it knows to disk. If a step of the write fails, the call says so, and the file shows what it
showed before. But the store does not forget: it finds the entries as if they had been written, and
the next write that is done writes them too.

Between two calls anything may happen to the disk, so a call may fail at any of its steps and the
next one be done.

## Main definitions

* `FileStore.Visit`: a call that adds entries, with the disk that it finds.
* `FileStore.after`, `FileStore.added`: a store after some calls, and entries with those of some
  calls over them.

## Main results

* `FileStore.entries_after` — a store knows what all calls added, those that failed included.
* `FileStore.remembers_failed_write` — what becomes of the entries of a call, whether it fails or
  not.
-/

namespace ChangeCapture

namespace FileStore

/-- **A call that adds entries**, and the disk that it finds. -/
structure Visit where
  tree : FileTree
  new : Entries
  deriving DecidableEq, Repr

/-- A store after some calls, one after the other. -/
def after (s : FileStore) (visits : List Visit) : FileStore :=
  visits.foldl (fun s v => (s.set v.tree v.new).store) s

/-- Entries with those of some calls over them, one whole call after the other. -/
def added (entries : Entries) (visits : List Visit) : Entries :=
  visits.foldl (fun m v => Dictionary.merge m v.new) entries

variable {s s₀ : FileStore} {tree₀ : FileTree} {visits : List Visit}

/-! ### What is known -/

/-- A store adds the entries of a call to what it knows, whatever the disk does. -/
theorem set_store (tree : FileTree) (s : FileStore) (new : Entries) :
    (s.set tree new).store = { s with entries := Dictionary.merge s.entries new } :=
  rfl

theorem after_append (s : FileStore) (earlier later : List Visit) :
    s.after (earlier ++ later) = (s.after earlier).after later :=
  List.foldl_append

/-- Calls leave a store at its path. -/
theorem path_after (s : FileStore) (visits : List Visit) : (s.after visits).path = s.path := by
  induction visits generalizing s with
  | nil => rfl
  | cons v visits ih => exact ih _

/-- **A store knows what all calls added**, one call after the other, those that failed included. -/
theorem entries_after (s : FileStore) (visits : List Visit) :
    (s.after visits).entries = added s.entries visits := by
  induction visits generalizing s with
  | nil => rfl
  | cons v visits ih => exact ih _

/-- One call more adds its entries last. -/
theorem added_concat (entries : Entries) (visits : List Visit) (v : Visit) :
    added entries (visits ++ [v]) = Dictionary.merge (added entries visits) v.new := by
  rw [added, List.foldl_append]
  rfl

/-- Calls keep the entries sorted. -/
theorem sorted_after (h : Dictionary.Sorted s.entries) (visits : List Visit) :
    Dictionary.Sorted (s.after visits).entries := by
  induction visits generalizing s with
  | nil => exact h
  | cons v visits ih => exact ih (h.merge v.new)

/-- A key that calls do not set keeps its value. -/
theorem get?_after {k : Bytes} (h : ∀ v ∈ visits, ∀ e ∈ v.new, e.1 ≠ k) :
    Dictionary.get? k (s.after visits).entries = Dictionary.get? k s.entries := by
  induction visits generalizing s with
  | nil => rfl
  | cons v visits ih =>
    have hrest := ih (s := (s.set v.tree v.new).store) fun w hw => h w (List.mem_cons_of_mem _ hw)
    refine hrest.trans ?_
    exact Dictionary.get?_merge_of_forall_ne (h v List.mem_cons_self) s.entries

/-! ### What becomes of a call -/

/-- A start keeps the path and leaves the entries sorted. -/
theorem sorted_of_start (h : s.start tree₀ = .ok s₀) :
    s₀.path = s.path ∧ Dictionary.Sorted s₀.entries := by
  obtain ⟨entries, hload, rfl⟩ := start_eq_ok.mp h
  exact ⟨rfl, sorted_load hload⟩

/-- **A store remembers a write that failed.** After any calls that follow a start, each on a disk
that holds anything, the store finds what all of them added, one whole call after the other,
whichever of them failed: what is under a key is what the last call that set the key gave it. What
the next write that is done leaves at the path is all of this. A call that fails leaves the file as
it was, at a path that names a file and whose extension is not that of its temporary sibling. -/
theorem remembers_failed_write (hstart : s.start tree₀ = .ok s₀) (earlier later : List Visit)
    (v : Visit) :
    let call := (s₀.after earlier).set v.tree v.new
    let s₁ := s₀.after (earlier ++ v :: later)
    (∀ keys, s₁.get keys = (added s₀.entries (earlier ++ v :: later)).select keys) ∧
    (∀ k value, (k, value) ∈ v.new → Dictionary.Sorted v.new →
      (∀ w ∈ later, ∀ e ∈ w.new, e.1 ≠ k) → Dictionary.get? k s₁.entries = some value) ∧
    (∀ w : Visit, (s₁.set w.tree w.new).error = none →
      load (s₁.set w.tree w.new).tree s.path =
        .ok (added s₀.entries (earlier ++ v :: (later ++ [w])))) ∧
    (call.error ≠ none → NamesFile v.tree s.path → s.path.extensionOf ≠ some "tmp".toList →
      ∀ before, load v.tree s.path = .ok before → load call.tree s.path = .ok before) := by
  intro call s₁
  obtain ⟨hpath, hsorted⟩ := sorted_of_start hstart
  have hpath₁ : ∀ visits, (s₀.after visits).path = s.path := fun visits =>
    (path_after s₀ visits).trans hpath
  refine ⟨fun keys => ?_, fun k value hmem hnew hlater => ?_, fun w hdone => ?_,
    fun hfails hfile hext before hbefore => ?_⟩
  · rw [get, entries_after]
  · have hcall : s₁ = call.store.after later := after_append s₀ earlier (v :: later)
    rw [hcall, get?_after hlater, set_store, Dictionary.get?_merge k _ hnew,
      hnew.get?_eq_some_iff.mpr hmem]
    rfl
  · have hsorted₁ := (sorted_after hsorted (earlier ++ v :: later)).merge w.new
    have hload : load (s₁.set w.tree w.new).tree s₁.path =
        .ok (Dictionary.merge s₁.entries w.new) :=
      load_save hsorted₁ (Option.map_eq_none_iff.mp hdone)
    have hentries : s₁.entries = added s₀.entries (earlier ++ v :: later) := entries_after s₀ _
    rw [hpath₁, hentries, ← added_concat, List.append_assoc] at hload
    exact hload
  · rw [← hpath₁ earlier] at hfile hext hbefore ⊢
    exact load_of_failed hfile hext hbefore fun hnone => hfails (Option.map_eq_none_iff.mpr hnone)

/-- A file stands where the directory of the store is to be made; then there is that directory, but
a directory stands where the temporary sibling is to be written; then both are gone. The store finds
what neither call could write, and the next one writes it too. -/
theorem remembers_failed_write_below_file :
    let s : FileStore := { path := ⟨"d/offsets.json"⟩ }
    let u : Visit := { tree := [(["d"], .file [7])], new := [([1], [2])] }
    let v : Visit :=
      { tree := [(["d"], .directory), (["d", "offsets.tmp"], .directory)], new := [([3], [4])] }
    let w : Visit := { tree := [], new := [([5], [6])] }
    let call := (s.after [u]).set v.tree v.new
    let s₁ := s.after ([u] ++ v :: [])
    (s.start [] = .ok s ∧ (s.set u.tree u.new).error = some (.file .alreadyExists) ∧
      call.error = some (.file .isDirectory) ∧ (s₁.set w.tree w.new).error = none) ∧
    (s₁.get [[1], [3], [5]] = [([1], [2]), ([3], [4])] ∧
      Dictionary.get? [3] s₁.entries = some [4]) ∧
      load (s₁.set w.tree w.new).tree s.path = .ok [([1], [2]), ([3], [4]), ([5], [6])] ∧
        load call.tree s.path = .ok [] := by
  intro s u v w call s₁
  have hstart : s.start [] = .ok s := by decide +kernel
  have hbelow : (s.set u.tree u.new).error = some (.file .alreadyExists) := by decide +kernel
  have hfails : call.error = some (.file .isDirectory) := by decide +kernel
  have hdone : (s₁.set w.tree w.new).error = none := by decide +kernel
  have hfile : NamesFile v.tree s.path := ⟨by decide, by decide +kernel⟩
  have hext : s.path.extensionOf ≠ some "tmp".toList := by decide
  have hbefore : load v.tree s.path = .ok [] := by decide +kernel
  obtain ⟨hget, hkey, hnext, hstays⟩ := remembers_failed_write hstart [u] [] v
  exact ⟨⟨hstart, hbelow, hfails, hdone⟩,
    ⟨hget [[1], [3], [5]], hkey [3] [4] (by simp [v]) trivial (by simp)⟩, hnext w hdone,
    hstays (by rw [hfails]; nofun) hfile hext [] hbefore⟩

/-- **A store does not forget a write that failed.** What it finds then is not what it found before,
and the next write that is done leaves more at the path than what was loaded and what that one
added. -/
theorem not_forgets_failed_write :
    (¬ ∀ (tree₀ tree : FileTree) (s s₀ : FileStore) (new : Entries), s.start tree₀ = .ok s₀ →
      (s₀.set tree new).error ≠ none → ∀ keys, (s₀.set tree new).store.get keys = s₀.get keys) ∧
    ¬ ∀ (tree₀ tree tree' : FileTree) (s s₀ : FileStore) (new new' : Entries),
      s.start tree₀ = .ok s₀ → (s₀.set tree new).error ≠ none →
      ((s₀.set tree new).store.set tree' new').error = none →
      load ((s₀.set tree new).store.set tree' new').tree s.path =
        .ok (Dictionary.merge s₀.entries new') := by
  -- A file stands where the directory of the store is to be made, and is gone for the next call.
  let s : FileStore := { path := ⟨"d/offsets.json"⟩ }
  let tree : FileTree := [(["d"], .file [7])]
  have hstart : s.start [] = .ok s := by decide +kernel
  have hfails : (s.set tree [([1], [2])]).error ≠ none := by decide +kernel
  refine ⟨fun hall => ?_, fun hall => ?_⟩
  · have hget := hall [] tree s s [([1], [2])] hstart hfails [[1]]
    revert hget
    decide +kernel
  · have hload := hall [] tree [] s s [([1], [2])] [([3], [4])] hstart hfails (by decide +kernel)
    revert hload
    decide +kernel

end FileStore

end ChangeCapture
