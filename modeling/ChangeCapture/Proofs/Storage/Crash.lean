import ChangeCapture.Proofs.Storage.Sibling
import ChangeCapture.Proofs.Storage.Store

/-!
# Writes that are cut off

A crash may cut off a write to disk anywhere: while the directory is made, after any part of the
content of the temporary sibling, or before or after the sibling takes the place of the file. The
entries of the file are then those from before the write or those from after it, because until the
last step the path is read as before. This rests on the sibling being another file, so it fails for
a path with the sibling's own extension, whose file is written over in place.

## Main definitions

* `FileStore.Cut`: the trees in which a crash may leave a write to disk.
* `FileStore.NamesFile`: a path at which a file can be kept.

## Main results

* `FileTree.read_of_grows`, `FileStore.read_put_temporary` — what is read at a path stays when
  directories are made and when its temporary sibling is written.
* `FileStore.start_of_cut` — a store that starts after a crash holds the entries from before the
  write or those from after it.
-/

namespace ChangeCapture

namespace FileTree

variable {t t' : FileTree} {place place' : List String} {c : String} {cs dots : List String}
  {p : FilePath}

/-! ### Paths in a tree that grows -/

/-- What is not missing is reached, or refused, in the same way when directories are added. -/
theorem walk_of_grows (hg : t.GrowsTo t') (h : t.walk place cs ≠ .error .notFound) :
    t'.walk place cs = t.walk place cs := by
  induction cs generalizing place with
  | nil => rfl
  | cons c cs ih =>
    by_cases hne : cs = []
    · rw [hne]
      rfl
    · rw [walk.eq_3 _ _ _ _ hne] at h ⊢
      rw [walk.eq_3 _ _ _ _ hne]
      cases hc : enter place c with
      | error fault => rfl
      | ok next =>
        rw [hc] at h
        dsimp only [expectDirectory] at h ⊢
        cases hn : t.node? next with
        | none => rw [hn] at h; exact absurd rfl h
        | some node =>
          rw [hn] at h
          rw [hg.node? hn]
          cases node with
          | file content => rfl
          | directory => exact ih h

/-- A path that leads somewhere is followed component by component. -/
theorem walk_of_locate (h : t.locate p = .ok place) : t.walk [] p.components = .ok place := by
  rw [locate] at h
  split at h
  · cases h
  · split at h
    · cases h
    · exact h

/-- A path leads to the same place where its components do. -/
theorem locate_congr (h : t'.walk [] p.components = t.walk [] p.components) :
    t'.locate p = t.locate p := by
  rw [locate, locate, h]

/-- A path is read in the same way where it leads to the same place with the same in it. -/
theorem read_congr (hloc : t'.locate p = t.locate p)
    (hnode : ∀ place, t.locate p = .ok place → t'.node? place = t.node? place) :
    t'.read p = t.read p := by
  rw [read, read, hloc]
  cases hp : t.locate p with
  | error fault => rfl
  | ok place =>
    dsimp only
    rw [hnode place hp]

/-- **What is read at a path stays** when directories are added, unless the file was missing. -/
theorem read_of_grows (hg : t.GrowsTo t') (h : t.read p ≠ .error .notFound) :
    t'.read p = t.read p := by
  rw [read] at h
  have hloc : t'.locate p = t.locate p := by
    rw [locate] at h ⊢
    rw [locate]
    split
    · rfl
    · split
      · rfl
      · rename_i hf hempty
        rw [hf] at h
        dsimp only at h
        rw [if_neg hempty] at h
        exact walk_of_grows hg fun hw => h (by rw [hw])
  refine read_congr hloc fun place hp => ?_
  rw [hp] at h
  dsimp only at h
  cases hn : t.node? place with
  | none => rw [hn] at h; exact absurd rfl h
  | some node => exact hg.node? hn

/-! ### Paths that share their directory -/

/-- A component leads up or stays, or it is a name. -/
theorem enter_eq_ok (h : enter place c = .ok place') :
    place' <+: place ∨ FilePath.isStep c = false ∧ place' = place ++ [c] := by
  rw [enter] at h
  split at h
  · obtain rfl := Except.ok.inj h
    exact .inl (List.prefix_refl _)
  · rename_i hdot
    split at h
    · obtain rfl := Except.ok.inj h
      exact .inl (List.dropLast_prefix _)
    · rename_i hdots
      split at h
      · cases h
      · obtain rfl := Except.ok.inj h
        exact .inr ⟨by simp [FilePath.isStep, hdot, hdots], rfl⟩

/-- A path of more than one component goes on from a directory. -/
theorem walk_cons (hne : cs ≠ []) {next : List String} (henter : enter place c = .ok next)
    (hdir : t.node? next = some .directory) : t.walk place (c :: cs) = t.walk next cs := by
  rw [walk.eq_3 _ _ _ _ hne, henter]
  dsimp only [expectDirectory]
  rw [hdir]

theorem walk_cons_eq_ok (hne : cs ≠ []) (h : t.walk place (c :: cs) = .ok place') :
    ∃ next, enter place c = .ok next ∧ t.node? next = some .directory ∧
      t.walk next cs = .ok place' := by
  have hwalk := h
  rw [walk.eq_3 _ _ _ _ hne] at h
  cases henter : enter place c with
  | error fault => rw [henter] at h; cases h
  | ok next =>
    rw [henter] at h
    dsimp only [expectDirectory] at h
    cases hn : t.node? next with
    | none => rw [hn] at h; cases h
    | some node =>
      cases node with
      | file content => rw [hn] at h; cases h
      | directory => exact ⟨next, rfl, hn, (walk_cons hne henter hn).symm.trans hwalk⟩

/-- **What leads to the directory of one path leads to that of another.** A path that is followed
passes a directory that, like all above it, is there, and every other path that starts in the same
way goes on from it, in this tree and in one with more directories. -/
theorem exists_of_walk_append {ys : List String}
    (hplace : ∀ x, x <+: place → t.node? x = some .directory)
    (h : t.walk place (cs ++ c :: ys) = .ok place') :
    ∃ d, (∀ x, x <+: d → t.node? x = some .directory) ∧ t.walk d (c :: ys) = .ok place' ∧
      ∀ {t' : FileTree}, (∀ x, t.node? x = some .directory → t'.node? x = some .directory) →
        ∀ z zs, t'.walk place (cs ++ z :: zs) = t'.walk d (z :: zs) := by
  induction cs generalizing place with
  | nil => exact ⟨place, hplace, h, fun _ _ _ => rfl⟩
  | cons b cs ih =>
    have hne : ∀ (z : String) zs, cs ++ z :: zs ≠ [] :=
      fun _ _ => List.append_ne_nil_of_right_ne_nil _ (List.cons_ne_nil _ _)
    obtain ⟨next, henter, hdir, hwalk⟩ := walk_cons_eq_ok (hne c ys) h
    have hnext : ∀ x, x <+: next → t.node? x = some .directory := by
      rcases enter_eq_ok henter with hpre | ⟨-, rfl⟩
      · exact fun x hx => hplace x (hx.trans hpre)
      · intro x hx
        rcases List.prefix_concat_iff.mp hx with rfl | hx
        · exact hdir
        · exact hplace x hx
    obtain ⟨d, hd, hgo, hother⟩ := ih hnext hwalk
    refine ⟨d, hd, hgo, fun {t'} hdirs z zs => ?_⟩
    rw [List.cons_append, walk_cons (hne z zs) henter (hdirs _ hdir)]
    exact hother hdirs z zs

/-- Lone dots lead nowhere. -/
theorem enter_of_walk_dots (hdots : ∀ c ∈ dots, c = ".") (h : t.walk place (c :: dots) = .ok place') :
    enter place c = .ok place' := by
  induction dots generalizing place c with
  | nil => exact h
  | cons b dots ih =>
    obtain ⟨next, henter, -, hwalk⟩ := walk_cons_eq_ok (List.cons_ne_nil _ _) h
    obtain rfl : b = "." := hdots b List.mem_cons_self
    rw [henter]
    exact ih (fun c hc => hdots c (List.mem_cons_of_mem _ hc)) hwalk

/-- Lone dots look at one place. -/
theorem walk_dots_congr (hnode : t'.node? place = t.node? place) (hdots : ∀ c ∈ dots, c = ".") :
    t'.walk place dots = t.walk place dots := by
  induction dots with
  | nil => rfl
  | cons b dots ih =>
    obtain rfl : b = "." := hdots b List.mem_cons_self
    have hdots := fun c hc => hdots c (List.mem_cons_of_mem _ hc)
    cases dots with
    | nil => rfl
    | cons b' dots =>
      have hstay : enter place "." = .ok place := rfl
      rw [walk.eq_3 _ _ _ _ (List.cons_ne_nil _ _), walk.eq_3 _ _ _ _ (List.cons_ne_nil _ _), hstay]
      dsimp only [expectDirectory]
      rw [hnode, ih hdots]

/-- A name and lone dots behind it look at one place. -/
theorem walk_name_congr (hname : FilePath.isStep c = false)
    (hnode : t'.node? (place ++ [c]) = t.node? (place ++ [c])) (hdots : ∀ c ∈ dots, c = ".") :
    t'.walk place (c :: dots) = t.walk place (c :: dots) := by
  cases dots with
  | nil => rfl
  | cons b dots =>
    rw [walk.eq_3 _ _ _ _ (List.cons_ne_nil _ _), walk.eq_3 _ _ _ _ (List.cons_ne_nil _ _)]
    cases henter : enter place c with
    | error fault => rfl
    | ok next =>
      obtain rfl : next = place ++ [c] := by
        simp only [FilePath.isStep, Bool.or_eq_false_iff, decide_eq_false_iff_not] at hname
        rw [enter, if_neg hname.1, if_neg hname.2] at henter
        split at henter
        · cases henter
        · exact (Except.ok.inj henter).symm
      dsimp only [expectDirectory]
      rw [hnode, walk_dots_congr hnode hdots]

/-- **A name in a directory is read in the same way** where the same stands at it, in a tree that
has the directories of this one, if the path leads through the directory in both. -/
theorem read_of_name {d : List String} (hd : ∀ x, x <+: d → t.node? x = some .directory)
    (hdirs : ∀ x, t.node? x = some .directory → t'.node? x = some .directory)
    (hname : FilePath.isStep c = false) (hdots : ∀ c ∈ dots, c = ".")
    (hnode : t'.node? (d ++ [c]) = t.node? (d ++ [c]))
    (hwalk : t.walk [] p.components = t.walk d (c :: dots))
    (hwalk' : t'.walk [] p.components = t'.walk d (c :: dots)) : t'.read p = t.read p := by
  refine read_congr (locate_congr ?_) fun place hplace => ?_
  · rw [hwalk, hwalk', walk_name_congr hname hnode hdots]
  · have hlast := (hwalk.symm.trans (walk_of_locate hplace))
    rcases enter_eq_ok (enter_of_walk_dots hdots hlast) with hpre | ⟨-, rfl⟩
    · rw [hdirs _ (hd _ hpre), hd _ hpre]
    · exact hnode

end FileTree

namespace FileStore

variable {tree t : FileTree} {path : FilePath} {entries before : Entries}

/-! ### Writing the sibling -/

/-- **The temporary sibling is another file.** What is read at a path stays when its temporary
sibling is written, unless the path has that extension itself. -/
theorem read_write_temporary {content : Bytes} (hfile : path.fileName? ≠ none)
    (hext : path.extensionOf ≠ some "tmp".toList)
    (h : tree.write (temporary path) content = .ok t) : t.read path = tree.read path := by
  obtain ⟨name, hname⟩ := Option.ne_none_iff_exists'.mp hfile
  obtain ⟨a, hlocate, hdir, rfl⟩ := FileTree.write_eq_ok h
  obtain ⟨sibling, dots, htemporary, hdots, hne⟩ := components_temporary hname hext
  obtain ⟨dots', hpath, hdots'⟩ := FilePath.components_of_fileName? hname
  have hwalk := FileTree.walk_of_locate hlocate
  rw [htemporary] at hwalk
  -- Both paths lead to a directory `d`, and the sibling is a name in it and no step out of it.
  obtain ⟨d, hd, hlast, hother⟩ :=
    FileTree.exists_of_walk_append (fun x hx => by rw [List.prefix_nil.mp hx]; rfl) hwalk
  obtain ⟨-, rfl⟩ := (FileTree.enter_eq_ok (FileTree.enter_of_walk_dots hdots hlast)).resolve_left
    fun hpre => hdir (hd _ hpre)
  have hput := FileTree.node?_put (t := tree) (FileTree.ne_nil_of_node? hdir) (.file content)
  have hdirs : ∀ x, tree.node? x = some .directory → FileTree.node?
      (Dictionary.put (d ++ [String.ofList sibling]) (.file content) tree) x =
        some .directory := by
    intro x hx
    rw [hput, if_neg, hx]
    rintro rfl
    exact hdir hx
  have hplace : d ++ [String.ofList name] ≠ d ++ [String.ofList sibling] := by
    intro heq
    have hnames := (List.cons.inj (List.append_cancel_left heq)).1
    exact hne (String.ofList_injective hnames).symm
  refine FileTree.read_of_name hd hdirs (FilePath.isStep_of_fileName? hname) hdots'
    ((hput _).trans (if_neg hplace)) ?_ ?_
  · rw [hpath, hother fun _ hx => hx]
  · rw [hpath, hother hdirs]

/-! ### Crashes -/

/-- **A path names a file** if it ends in a name and no file or directory comes to stand at it by
making the directory that it needs. That happens to a path which leaves a directory that is missing:
making the directory of `b/../b` makes `b`. -/
def NamesFile (tree : FileTree) (path : FilePath) : Prop :=
  path.fileName? ≠ none ∧
    (tree.read path = .error .notFound → (prepare tree path).tree.read path = .error .notFound)

/-- **Where a crash may leave a write to disk**: while directories are made, after a part of the
content has been written to the temporary sibling, or at the end. -/
inductive Cut (tree : FileTree) (path : FilePath) (entries : Entries) : FileTree → Prop where
  | preparing {t : FileTree} (hmade : tree.GrowsTo t) (hleft : t.GrowsTo (prepare tree path).tree) :
      Cut tree path entries t
  | writing {t : FileTree} {written : Bytes} (hprepared : (prepare tree path).fault = none)
      (hpart : written <+: content entries)
      (hwrite : (prepare tree path).tree.write (temporary path) written = .ok t) :
      Cut tree path entries t
  | done : Cut tree path entries (save tree path entries).tree

/-- What is loaded is decided by what is read. -/
theorem load_congr (h : t.read path = tree.read path) : load t path = load tree path := by
  rw [load, load, h]

/-- Making the directory of a path changes nothing of what is loaded. -/
theorem load_of_preparing (hfile : NamesFile tree path) (hbefore : load tree path = .ok before)
    (hmade : tree.GrowsTo t) (hleft : t.GrowsTo (prepare tree path).tree) :
    load t path = .ok before := by
  rw [← hbefore]
  refine load_congr ?_
  by_cases hmissing : tree.read path = .error .notFound
  · rw [hmissing]
    by_contra hfound
    have hprepared := FileTree.read_of_grows hleft hfound
    exact hfound (hprepared.symm.trans (hfile.2 hmissing))
  · exact FileTree.read_of_grows hmade hmissing

/-- Writing the temporary sibling changes nothing of what is loaded. -/
theorem load_of_writing {content : Bytes} (hfile : NamesFile tree path)
    (hext : path.extensionOf ≠ some "tmp".toList) (hbefore : load tree path = .ok before)
    (hwrite : (prepare tree path).tree.write (temporary path) content = .ok t) :
    load t path = .ok before :=
  (load_congr (read_write_temporary hfile.1 hext hwrite)).trans
    (load_of_preparing hfile hbefore (prepare_grows tree path) (.refl _))

/-- **A write to disk that fails leaves what was there**, whichever of its steps it is that fails. -/
theorem load_of_failed (hfile : NamesFile tree path) (hext : path.extensionOf ≠ some "tmp".toList)
    (hbefore : load tree path = .ok before) (h : (save tree path entries).fault ≠ none) :
    load (save tree path entries).tree path = .ok before := by
  obtain ⟨fault, heq⟩ | ⟨t, hwrite, ⟨fault, heq⟩ | ⟨t', hrename, heq⟩⟩ :=
    save_cases tree path entries
  · rw [heq]
    exact load_of_preparing hfile hbefore (prepare_grows tree path) (.refl _)
  · rw [heq]
    exact load_of_writing hfile hext hbefore hwrite
  · rw [heq] at h
    exact absurd rfl h

/-- **A crash leaves what was there or what was to be written.** -/
theorem Cut.load (h : Cut tree path entries t) (hfile : NamesFile tree path)
    (hext : path.extensionOf ≠ some "tmp".toList) (hsorted : Dictionary.Sorted entries)
    (hbefore : FileStore.load tree path = .ok before) :
    FileStore.load t path = .ok before ∨ FileStore.load t path = .ok entries := by
  cases h with
  | preparing hmade hleft => exact .inl (load_of_preparing hfile hbefore hmade hleft)
  | writing _ _ hwrite => exact .inl (load_of_writing hfile hext hbefore hwrite)
  | done =>
    by_cases hdone : (save tree path entries).fault = none
    · exact .inr (load_save hsorted hdone)
    · exact .inl (load_of_failed hfile hext hbefore hdone)

/-- **A crash never damages what a file store committed.** However a write is cut off, a store that
starts at the path afterwards holds the entries from before the write or those from after it. The
extension of the path is not that of its temporary sibling. -/
theorem start_of_cut {s : FileStore} {new : Entries} (hfile : NamesFile tree s.path)
    (hext : s.path.extensionOf ≠ some "tmp".toList) (hsorted : Dictionary.Sorted s.entries)
    (hbefore : load tree s.path = .ok before)
    (h : Cut tree s.path (Dictionary.merge s.entries new) t) :
    ∃ s', start t { path := s.path } = .ok s' ∧
      (s'.entries = before ∨ s'.entries = Dictionary.merge s.entries new) := by
  rcases h.load hfile hext (hsorted.merge new) hbefore with hload | hload
  · exact ⟨{ path := s.path, entries := before }, by rw [start, hload], .inl rfl⟩
  · exact ⟨{ path := s.path, entries := Dictionary.merge s.entries new }, by rw [start, hload],
      .inr rfl⟩

/-- The first five bytes of the temporary sibling are written when the process ends. -/
theorem start_of_cut_after_five_bytes :
    let s : FileStore := { path := ⟨"offsets.json"⟩, entries := [([1], [2])] }
    let tree : FileTree := [(["offsets.json"], .file (content s.entries))]
    let new : Entries := [([1], [3]), ([4], [])]
    let written := (content (Dictionary.merge s.entries new)).take 5
    let t : FileTree := Dictionary.put ["offsets.tmp"] (.file written) tree
    NamesFile tree s.path ∧ s.path.extensionOf ≠ some "tmp".toList ∧
      Cut tree s.path (Dictionary.merge s.entries new) t ∧
      ∃ s', start t { path := s.path } = .ok s' ∧
        (s'.entries = s.entries ∨ s'.entries = Dictionary.merge s.entries new) := by
  intro s tree new written t
  have hfile : NamesFile tree s.path := ⟨by decide, by decide +kernel⟩
  have hext : s.path.extensionOf ≠ some "tmp".toList := by decide
  have hload : load tree s.path = .ok s.entries := by decide +kernel
  have hpart : written <+: content (Dictionary.merge s.entries new) := List.take_prefix _ _
  have hcut : Cut tree s.path (Dictionary.merge s.entries new) t :=
    .writing (by decide +kernel) hpart (by decide +kernel)
  exact ⟨hfile, hext, hcut, start_of_cut hfile hext trivial hload hcut⟩

/-- **A file whose extension is that of temporary siblings is its own.** It is written over in
place, so a crash after two bytes leaves neither what was there nor what was to be written, and a
store does not start on it. -/
theorem not_start_of_cut :
    ¬ ∀ (tree t : FileTree) (s : FileStore) (before new : Entries),
      NamesFile tree s.path → Dictionary.Sorted s.entries → load tree s.path = .ok before →
      Cut tree s.path (Dictionary.merge s.entries new) t →
      ∃ s', start t { path := s.path } = .ok s' ∧
        (s'.entries = before ∨ s'.entries = Dictionary.merge s.entries new) := by
  intro hall
  let s : FileStore := { path := ⟨"offsets.tmp"⟩, entries := [([1], [2])] }
  let tree : FileTree := [(["offsets.tmp"], .file (content s.entries))]
  let new : Entries := [([1], [3])]
  let written := (content (Dictionary.merge s.entries new)).take 2
  let t : FileTree := [(["offsets.tmp"], .file written)]
  have hload : load tree s.path = .ok s.entries := by decide +kernel
  have hpart : written <+: content (Dictionary.merge s.entries new) := List.take_prefix _ _
  have hcut : Cut tree s.path (Dictionary.merge s.entries new) t :=
    .writing (by decide +kernel) hpart (by decide +kernel)
  have hfails : start t { path := s.path } = .error (.serialization .truncated) := by
    decide +kernel
  obtain ⟨s', hstart, -⟩ := hall tree t s s.entries new ⟨by decide, by decide +kernel⟩ trivial
    hload hcut
  rw [hfails] at hstart
  cases hstart

end FileStore

end ChangeCapture
