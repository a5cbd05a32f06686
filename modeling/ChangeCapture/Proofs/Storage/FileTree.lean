import ChangeCapture.Proofs.Dictionary
import ChangeCapture.Storage.FileTree

/-!
# What becomes of a tree of files

Where a path leads depends on the directories alone. Making directories changes nothing that is
there, and writing or renaming a file leaves every directory in its place, so a path leads where it
led before.

## Main definitions

* `FileTree.GrowsTo`: a tree with more directories.
* `FileTree.restore`: a tree in which one place is as it was.

## Main results

* `FileTree.locate_of_ok`, `FileTree.locate_of_notFound` — what a path leads to in another tree.
* `FileTree.createDirs_grows` — making directories adds directories and nothing else.
-/

namespace ChangeCapture

namespace FileTree

variable {t t' t'' : FileTree} {place place' : List String} {p : FilePath}

/-! ### Places -/

/-- What stands at a place after something is put at one that is not the working directory. -/
theorem node?_put (hp : place ≠ []) (node : FileNode) (place' : List String) :
    node? (Dictionary.put place node t) place' =
      if place' = place then some node else t.node? place' := by
  cases place' with
  | nil => rw [if_neg hp.symm]; rfl
  | cons c cs => exact Dictionary.get?_put _ _ _ _

/-- What stands at a place after one that is not the working directory is emptied. -/
theorem node?_erase (hp : place ≠ []) (place' : List String) :
    node? (Dictionary.erase place t) place' = if place' = place then none else t.node? place' := by
  cases place' with
  | nil => rw [if_neg hp.symm]; rfl
  | cons c cs => exact Dictionary.get?_erase _ _ _

/-- The working directory is a directory. -/
theorem ne_nil_of_node? (h : t.node? place ≠ some .directory) : place ≠ [] := by
  rintro rfl
  exact h rfl

/-! ### Following a path in another tree -/

/-- A tree with the same directories, and more, is followed to the same place. -/
theorem walk_of_ok (hdir : ∀ x, t.node? x = some .directory → t'.node? x = some .directory)
    {cs : List String} (h : t.walk place cs = .ok place') : t'.walk place cs = .ok place' := by
  induction cs generalizing place with
  | nil => exact h
  | cons c cs ih =>
    cases cs with
    | nil => exact h
    | cons c' cs =>
      rw [walk] at h ⊢
      · cases hc : enter place c with
        | error fault => rw [hc] at h; cases h
        | ok next =>
          rw [hc] at h
          dsimp only [expectDirectory] at h ⊢
          cases hn : t.node? next with
          | none => rw [hn] at h; cases h
          | some node =>
            rw [hn] at h
            cases node with
            | file content => cases h
            | directory =>
              rw [hdir next hn]
              exact ih h
      all_goals exact List.cons_ne_nil _ _

/-- What is missing on the way is missing in a tree with the same directories and the same gaps. -/
theorem walk_of_notFound (hdir : ∀ x, t.node? x = some .directory → t'.node? x = some .directory)
    (hnone : ∀ x, t.node? x = none → t'.node? x = none) {cs : List String}
    (h : t.walk place cs = .error .notFound) : t'.walk place cs = .error .notFound := by
  induction cs generalizing place with
  | nil => exact h
  | cons c cs ih =>
    cases cs with
    | nil => exact h
    | cons c' cs =>
      rw [walk] at h ⊢
      · cases hc : enter place c with
        | error fault => rw [hc] at h; exact h
        | ok next =>
          rw [hc] at h
          dsimp only [expectDirectory] at h ⊢
          cases hn : t.node? next with
          | none => rw [hnone next hn]
          | some node =>
            rw [hn] at h
            cases node with
            | file content => cases h
            | directory =>
              rw [hdir next hn]
              exact ih h
      all_goals exact List.cons_ne_nil _ _

/-- **A path leads to the same place** in a tree with the same directories and more. -/
theorem locate_of_ok (hdir : ∀ x, t.node? x = some .directory → t'.node? x = some .directory)
    (h : t.locate p = .ok place) : t'.locate p = .ok place := by
  rw [locate] at h ⊢
  split at h
  · cases h
  · split at h
    · cases h
    · rename_i hempty
      rw [if_neg hempty]
      exact walk_of_ok hdir h

/-- **A path leads nowhere** in a tree with the same directories and the same gaps. -/
theorem locate_of_notFound (hdir : ∀ x, t.node? x = some .directory → t'.node? x = some .directory)
    (hnone : ∀ x, t.node? x = none → t'.node? x = none) (h : t.locate p = .error .notFound) :
    t'.locate p = .error .notFound := by
  rw [locate] at h ⊢
  split at h
  · exact h
  · split at h
    · rename_i hempty
      rw [if_pos hempty]
    · rename_i hempty
      rw [if_neg hempty]
      exact walk_of_notFound hdir hnone h

/-! ### More directories -/

/-- **A tree grows** when directories are made where nothing stood. -/
def GrowsTo (t t' : FileTree) : Prop :=
  ∀ x, t'.node? x = t.node? x ∨ t.node? x = none ∧ t'.node? x = some .directory

namespace GrowsTo

/-- A tree that stays as it is has grown by nothing. -/
theorem refl (t : FileTree) : t.GrowsTo t :=
  fun _ => .inl rfl

/-- A tree may grow twice. -/
theorem trans (h : t.GrowsTo t') (h' : t'.GrowsTo t'') : t.GrowsTo t'' := by
  intro x
  rcases h x with heq | ⟨hnone, hdir⟩ <;> rcases h' x with heq' | ⟨hnone', hdir'⟩
  · exact .inl (heq'.trans heq)
  · exact .inr ⟨heq.symm.trans hnone', hdir'⟩
  · exact .inr ⟨hnone, heq'.trans hdir⟩
  · rw [hdir] at hnone'
    cases hnone'

/-- What stands somewhere stays. -/
theorem node? {node : FileNode} (h : t.GrowsTo t') (hn : t.node? place = some node) :
    t'.node? place = some node := by
  rcases h place with heq | ⟨hnone, -⟩
  · rw [heq, hn]
  · rw [hnone] at hn
    cases hn

end GrowsTo

/-- A directory is made where nothing stood. -/
theorem createDir_grows {cs : List String} (h : t.createDir cs = .ok t') : t.GrowsTo t' := by
  rw [createDir] at h
  split at h
  · cases h
  · rename_i place hw
    split at h
    · cases h
    · rename_i hnone
      obtain rfl := Except.ok.inj h
      intro x
      rw [node?_put (ne_nil_of_node? (by rw [hnone]; nofun))]
      split
      · rename_i hx
        subst hx
        exact .inr ⟨hnone, rfl⟩
      · exact .inl rfl

/-- Ensuring a directory makes at most this one. -/
theorem ensureDir_grows (t : FileTree) (cs : List String) : t.GrowsTo (t.ensureDir cs).tree := by
  rw [ensureDir]
  split
  · rename_i h
    exact createDir_grows h
  · exact .refl t

/-- Ensuring a directory and those that lead to it makes directories and nothing else. -/
theorem ensureDirs_grows (t : FileTree) (cs : List String) : t.GrowsTo (t.ensureDirs cs).tree := by
  induction cs with
  | nil => exact .refl t
  | cons c cs ih =>
    rw [ensureDirs]
    dsimp only
    split
    · split
      · exact ih.trans (ensureDir_grows _ _)
      · exact ih
    · exact ensureDir_grows t _

/-- **Making directories adds directories and nothing else.** -/
theorem createDirs_grows (t : FileTree) (p : FilePath) : t.GrowsTo (t.createDirs p).tree := by
  rw [createDirs]
  split
  · exact .refl t
  · exact ensureDirs_grows t _

/-! ### Files -/

/-- **What writing a file does**, if it is done. -/
theorem write_eq_ok {content : Bytes} (h : t.write p content = .ok t') :
    ∃ place, t.locate p = .ok place ∧ t.node? place ≠ some .directory ∧
      t' = Dictionary.put place (.file content) t := by
  rw [write] at h
  split at h
  · cases h
  · rename_i place hp
    split at h
    · cases h
    · rename_i hno
      have hdir : t.node? place ≠ some .directory := fun hd => hno (by rw [hd]; simp)
      exact ⟨place, hp, hdir, (Except.ok.inj h).symm⟩

/-- **What renaming a file does**, if it is done. -/
theorem rename_eq_ok {source target : FilePath} (h : t.rename source target = .ok t') :
    ∃ a b content, t.locate source = .ok a ∧ t.locate target = .ok b ∧
      t.node? a = some (.file content) ∧
      t.node? b ≠ some .directory ∧ target.endsInSlash = false ∧
      t' = Dictionary.put b (.file content) (Dictionary.erase a t) := by
  rw [rename] at h
  split at h
  · cases h
  · cases h
  · rename_i a b ha hb
    split at h
    · cases h
    · split at h
      · cases h
      · cases h
      · rename_i content hn
        split at h
        · cases h
        · rename_i hslash
          split at h
          · cases h
          · rename_i hdir
            have hslash : target.endsInSlash = false := by
              simp only [Bool.or_eq_true, not_or, Bool.not_eq_true] at hslash
              exact hslash.2
            exact ⟨a, b, content, ha, hb, hn, hdir, hslash, (Except.ok.inj h).symm⟩

/-- A file is renamed only if both paths end in names. -/
theorem endsInName_of_rename {source target : FilePath} (h : t.rename source target = .ok t') :
    source.endsInName = true ∧ target.endsInName = true := by
  rw [rename] at h
  split at h
  · cases h
  · cases h
  · split at h
    · cases h
    · rename_i hnames
      simpa using hnames

/-! ### One place as it was -/

/-- A tree in which one place is as it was. -/
def restore (place : List String) (node : Option FileNode) (t : FileTree) : FileTree :=
  match node with
  | some node => Dictionary.put place node t
  | none => Dictionary.erase place t

/-- What stands where after one place is restored. -/
theorem node?_restore (hp : place ≠ []) (node : Option FileNode) (place' : List String) :
    (restore place node t).node? place' = if place' = place then node else t.node? place' := by
  cases node with
  | some node => exact node?_put hp node place'
  | none => exact node?_erase hp place'

end FileTree

end ChangeCapture
