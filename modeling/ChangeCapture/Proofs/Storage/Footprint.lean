import ChangeCapture.Proofs.Storage.Descent

/-!
# What a write touches

A write to disk that is done leaves its content at the path, in a directory that was made if it was
missing, and nothing at the temporary sibling in this directory: a file that stood there is gone,
for the write goes through it. Whatever else stands in the tree stands there as before. So stores on
two paths in one directory find what they left, unless one path is the temporary sibling of the
other.

## Main definitions

* `FileTree.IsOnWay`: a place to which the first of some components lead.
* `FileTree.LeadTo`: the directory to which some components lead.
* `FileStore.temporaryName`: the name of the temporary sibling.
* `FileStore.Replaces`: a file that is replaced through the temporary sibling.
* `FileStore.Footprint`: all that a write to disk changes in a tree.

## Main results

* `FileTree.ensureDirs_cases` — what is made for a directory is on the way to it.
* `FileStore.replaces_of_save`, `FileStore.Replaces.footprint` — a write to disk that is done has its
  footprint.
* `FileStore.set_leaves_others` — what a call that adds entries leaves of the tree and of the files
  of other stores.
-/

namespace ChangeCapture

namespace FileTree

variable {t t' : FileTree} {place x : List String} {c : String} {cs cs' dots rest : List String}

/-! ### Directories on the way -/

/-- **A place on the way of some components**: the first of them lead to it. -/
def IsOnWay (t : FileTree) (cs place : List String) : Prop :=
  ∃ lead, lead <+: cs ∧ t.walk [] lead = .ok place

/-- What is on the way stays on it when the way goes on, in a tree with the same directories. -/
theorem IsOnWay.mono (h : t.IsOnWay cs x) (hcs : cs <+: cs')
    (hdirs : ∀ x, t.node? x = some .directory → t'.node? x = some .directory) :
    t'.IsOnWay cs' x := by
  obtain ⟨lead, hlead, hwalk⟩ := h
  exact ⟨lead, hlead.trans hcs, walk_of_ok hdirs hwalk⟩

/-- Ensuring a directory changes what stands where its components lead, and nothing else. -/
theorem ensureDir_cases (t : FileTree) (cs x : List String) :
    (t.ensureDir cs).tree.node? x = t.node? x ∨ (t.ensureDir cs).tree.IsOnWay cs x := by
  have hg := ensureDir_grows t cs
  by_cases hwalk : t.walk [] cs = .ok x
  · exact .inr ⟨cs, List.prefix_refl _, walk_of_ok (fun _ hy => hg.node? hy) hwalk⟩
  · refine .inl ?_
    rw [ensureDir, createDir]
    cases hw : t.walk [] cs with
    | error fault => rfl
    | ok place =>
      dsimp only
      cases hn : t.node? place with
      | some node => rfl
      | none =>
        dsimp only
        rw [node?_put (ne_nil_of_node? (by rw [hn]; rintro ⟨⟩)), if_neg]
        rintro rfl
        exact hwalk hw

/-- **What is made for a directory is on the way to it.** The components come last first. -/
theorem ensureDirs_cases (t : FileTree) (cs x : List String) :
    (t.ensureDirs cs).tree.node? x = t.node? x ∨ (t.ensureDirs cs).tree.IsOnWay cs.reverse x := by
  induction cs with
  | nil => exact .inl rfl
  | cons c cs ih =>
    have hmore : cs.reverse <+: (c :: cs).reverse := by
      rw [List.reverse_cons]
      exact List.prefix_append _ _
    rw [ensureDirs]
    dsimp only
    split
    · split
      · have hg := ensureDir_grows (t.ensureDirs cs).tree (c :: cs).reverse
        rcases ensureDir_cases (t.ensureDirs cs).tree (c :: cs).reverse x with heq | hway
        · rw [heq]
          exact ih.imp_right fun hway => hway.mono hmore fun _ hy => hg.node? hy
        · exact .inr hway
      · exact ih.imp_right fun hway => hway.mono hmore fun _ hy => hy
    · exact ensureDir_cases t _ x

/-! ### The directory of a path -/

/-- Lone dots stay in a directory. -/
theorem walk_dots_append (hdir : t.node? place = some .directory) (hdots : ∀ c ∈ dots, c = ".")
    (c : String) (rest : List String) :
    t.walk place (dots ++ c :: rest) = t.walk place (c :: rest) := by
  induction dots with
  | nil => rfl
  | cons b dots ih =>
    obtain rfl : b = "." := hdots b List.mem_cons_self
    have hne : dots ++ c :: rest ≠ [] := List.append_ne_nil_of_right_ne_nil _ (List.cons_ne_nil _ _)
    rw [List.cons_append, walk_cons hne rfl hdir]
    exact ih fun c hc => hdots c (List.mem_cons_of_mem _ hc)

/-- **Some components lead to a directory.** It is there with all that is above it, and a path that
goes on from the components goes on from it, in this tree and in one with more directories. -/
structure LeadTo (t : FileTree) (cs d : List String) : Prop where
  above : ∀ x, x <+: d → t.node? x = some .directory
  goesOn : ∀ {t' : FileTree}, (∀ x, t.node? x = some .directory → t'.node? x = some .directory) →
    ∀ {dots : List String}, (∀ c ∈ dots, c = ".") → ∀ c rest,
      t'.walk [] (cs ++ (dots ++ c :: rest)) = t'.walk d (c :: rest)

/-- **A path that goes on from some components passes the directory** to which they lead. -/
theorem exists_leadTo (hdots : ∀ c ∈ dots, c = ".")
    (h : t.walk [] (cs ++ (dots ++ c :: rest)) = .ok place) :
    ∃ d, t.LeadTo cs d ∧ t.walk d (c :: rest) = .ok place := by
  have hne : ∀ (dots : List String) c rest, ∃ z zs, dots ++ c :: rest = z :: zs :=
    fun dots c rest => List.exists_cons_of_ne_nil
      (List.append_ne_nil_of_right_ne_nil dots (List.cons_ne_nil c rest))
  obtain ⟨z, zs, hz⟩ := hne dots c rest
  rw [hz] at h
  obtain ⟨d, hd, hlast, hother⟩ := exists_of_walk_append node?_root h
  have hdir := hd d (List.prefix_refl _)
  refine ⟨d, ⟨hd, fun {t'} hdirs {dots'} hdots' c' rest' => ?_⟩, ?_⟩
  · obtain ⟨z', zs', hz'⟩ := hne dots' c' rest'
    rw [hz', hother hdirs, ← hz', walk_dots_append (hdirs d hdir) hdots']
  · rw [← hz, walk_dots_append hdir hdots] at hlast
    exact hlast

/-- A name in a directory, which is no directory, is where it leads to. -/
theorem eq_of_walk_name {d : List String} (hd : ∀ x, x <+: d → t.node? x = some .directory)
    (hdots : ∀ c ∈ dots, c = ".") (h : t.walk d (c :: dots) = .ok place)
    (hdir : t.node? place ≠ some .directory) :
    FilePath.isStep c = false ∧ place = d ++ [c] :=
  (enter_eq_ok (enter_of_walk_dots hdots h)).resolve_left fun hpre => hdir (hd _ hpre)

/-- **What stands where after a file is renamed.** Paths lead where they led before. -/
theorem exists_of_rename {source target : FilePath} (h : t.rename source target = .ok t') :
    ∃ a b content, t.locate source = .ok a ∧ t.locate target = .ok b ∧
      t.node? a = some (.file content) ∧ t.node? b ≠ some .directory ∧
      target.endsInSlash = false ∧
      (∀ x, t.node? x = some .directory → t'.node? x = some .directory) ∧
      ∀ x, t'.node? x =
        if x = b then some (.file content) else if x = a then none else t.node? x := by
  obtain ⟨a, b, content, ha, hb, hfile, hdir, hslash, rfl⟩ := rename_eq_ok h
  have hnode : ∀ x, node? (Dictionary.put b (.file content) (Dictionary.erase a t)) x =
      if x = b then some (.file content) else if x = a then none else t.node? x := by
    intro x
    rw [node?_put (ne_nil_of_node? hdir), node?_erase (ne_nil_of_node? (by rw [hfile]; rintro ⟨⟩))]
  refine ⟨a, b, content, ha, hb, hfile, hdir, hslash, fun x hx => ?_, hnode⟩
  rw [hnode, if_neg, if_neg, hx]
  · rintro rfl
    rw [hfile] at hx
    cases hx
  · rintro rfl
    exact hdir hx

end FileTree

namespace FileStore

variable {tree t t' : FileTree} {path parent : FilePath} {name : List Char} {bytes : Bytes}
  {entries : Entries} {dir : List String}

/-! ### What is prepared -/

/-- **What is made before a write is on the way to the directory of the path.** -/
theorem prepare_cases (hparent : path.parent? = some parent) (x : List String) :
    (prepare tree path).tree.node? x = tree.node? x ∨
      (prepare tree path).tree.IsOnWay parent.components x := by
  rw [prepare, hparent]
  dsimp only
  split
  · exact .inl rfl
  · rw [FileTree.createDirs]
    split
    · exact .inl rfl
    · have hcases := FileTree.ensureDirs_cases tree parent.components.reverse x
      rwa [List.reverse_reverse] at hcases

/-- Paths with one parent are prepared in the same way. -/
theorem prepare_congr {other : FilePath} (h : other.parent? = path.parent?) (tree : FileTree) :
    prepare tree other = prepare tree path := by
  rw [prepare, prepare, h]

/-! ### What is written and renamed -/

/-- The name of the temporary sibling of a file with some name. -/
def temporaryName (name : List Char) : List Char :=
  (FilePath.splitExtension name).1 ++ '.' :: "tmp".toList

/-- Two names in one directory are two places. -/
theorem append_name_inj {name' : List Char} :
    dir ++ [String.ofList name] = dir ++ [String.ofList name'] ↔ name = name' := by
  rw [List.append_cancel_left_eq, List.cons.injEq, String.ofList_inj, and_iff_left rfl]

/-- A path that names a file has a parent. -/
theorem exists_parent (h : path.fileName? = some name) : ∃ parent, path.parent? = some parent := by
  obtain ⟨rfl, hne, -, -⟩ := FilePath.fileName?_eq_some.mp h
  rw [FilePath.parent?]
  dsimp only
  rw [if_neg (by simpa using hne)]
  exact ⟨_, rfl⟩

/-- **Where the temporary sibling is written**: in the directory to which the parent of the path
leads. -/
theorem exists_of_write_temporary (hname : path.fileName? = some name)
    (hparent : path.parent? = some parent) (h : t.write (temporary path) bytes = .ok t') :
    ∃ d, t.LeadTo parent.components d ∧
      t.locate (temporary path) = .ok (d ++ [String.ofList (temporaryName name)]) ∧
      t.node? (d ++ [String.ofList (temporaryName name)]) ≠ some .directory ∧
      ∀ x, t'.node? x = if x = d ++ [String.ofList (temporaryName name)] then some (.file bytes)
        else t.node? x := by
  obtain ⟨a, hlocate, hdir, rfl⟩ := FileTree.write_eq_ok h
  obtain ⟨sibling, rest, htemporary, hrest, hsibling⟩ :=
    FilePath.components_withExtension hname "tmp" (by decide)
  obtain ⟨dots, hlead, hdots⟩ := FilePath.componentsIn_lastPart hparent
  have hwalk := FileTree.walk_of_locate hlocate
  rw [temporary, htemporary, hlead, List.append_assoc] at hwalk
  obtain ⟨d, hd, hlast⟩ := FileTree.exists_leadTo hdots hwalk
  obtain ⟨hstep, rfl⟩ := FileTree.eq_of_walk_name hd.above hrest hlast hdir
  -- The sibling is no step out of the directory, so its name has the extension.
  rcases hsibling with rfl | rfl
  · cases hstep
  · exact ⟨d, hd, hlocate, hdir, FileTree.node?_put (FileTree.ne_nil_of_node? hdir) _⟩

/-- **A file that is written to the temporary sibling and then given the path**, in the directory to
which the parent of the path leads. -/
structure Replaces (t : FileTree) (path parent : FilePath) (bytes : Bytes) (t' : FileTree)
    (dir : List String) (name : List Char) : Prop where
  named : path.fileName? = some name
  parented : path.parent? = some parent
  leads : t.LeadTo parent.components dir
  located : t'.locate path = .ok (dir ++ [String.ofList name])
  beside : t'.locate (temporary path) = .ok (dir ++ [String.ofList (temporaryName name)])
  written : t'.read path = .ok bytes
  /-- Directories stay where they are. -/
  directories : ∀ x, t.node? x = some .directory → t'.node? x = some .directory
  node? : ∀ x, t'.node? x =
    if x = dir ++ [String.ofList name] then some (.file bytes)
    else if x = dir ++ [String.ofList (temporaryName name)] then none else t.node? x

/-- **A temporary sibling that is written and renamed** replaces the file at the path. -/
theorem replaces_of_rename {t₁ t₂ t₃ : FileTree} (hwrite : t₁.write (temporary path) bytes = .ok t₂)
    (hrename : t₂.rename (temporary path) path = .ok t₃) :
    ∃ parent dir name, Replaces t₁ path parent bytes t₃ dir name := by
  obtain ⟨name, hname⟩ := FilePath.exists_fileName (FileTree.endsInName_of_rename hrename).2
  obtain ⟨parent, hparent⟩ := exists_parent hname
  obtain ⟨d, hd, hsibling, hsdir, hnode₂⟩ := exists_of_write_temporary hname hparent hwrite
  obtain ⟨a, b, content, ha, hb, hfile, hbdir, hslash, hdirs₃, hnode₃⟩ :=
    FileTree.exists_of_rename hrename
  have hdirs₂ : ∀ x, t₁.node? x = some .directory → t₂.node? x = some .directory := by
    intro x hx
    rw [hnode₂, if_neg, hx]
    rintro rfl
    exact hsdir hx
  -- The sibling is found where it was written, with what was written.
  obtain rfl := Except.ok.inj (ha.symm.trans (FileTree.locate_of_ok hdirs₂ hsibling))
  rw [hnode₂, if_pos rfl] at hfile
  obtain rfl : bytes = content := FileNode.file.inj (Option.some.inj hfile)
  -- The path leads to its name in the same directory.
  obtain ⟨rest, hpath, hrest⟩ := FilePath.components_of_fileName? hname
  obtain ⟨dots, hlead, hdots⟩ := FilePath.componentsIn_lastPart hparent
  have hwalk := FileTree.walk_of_locate hb
  rw [hpath, hlead, List.append_assoc, hd.goesOn hdirs₂ hdots] at hwalk
  obtain ⟨-, rfl⟩ :=
    FileTree.eq_of_walk_name (fun x hx => hdirs₂ x (hd.above x hx)) hrest hwalk hbdir
  have hlocated := FileTree.locate_of_ok hdirs₃ hb
  refine ⟨parent, d, name, ⟨hname, hparent, hd, hlocated, FileTree.locate_of_ok hdirs₃ ha, ?_,
    fun x hx => hdirs₃ x (hdirs₂ x hx), fun x => ?_⟩⟩
  · rw [FileTree.read, hlocated]
    dsimp only
    rw [hnode₃, if_pos rfl, hslash]
    rfl
  · rw [hnode₃, hnode₂]
    split
    · rfl
    · split <;> rfl

namespace Replaces

/-- **What stands at another name in the directory is read as before**, whatever path with this
parent names it. -/
theorem read_other {other : FilePath} {name' : List Char}
    (h : Replaces t path parent bytes t' dir name) (hparent : other.parent? = some parent)
    (hname : other.fileName? = some name') (hne : name' ≠ name)
    (hsibling : name' ≠ temporaryName name) : t'.read other = t.read other := by
  obtain ⟨rest, hother, hrest⟩ := FilePath.components_of_fileName? hname
  obtain ⟨dots, hlead, hdots⟩ := FilePath.componentsIn_lastPart hparent
  have hcomponents : other.components =
      parent.components ++ (dots ++ String.ofList name' :: rest) := by
    rw [hother, hlead, List.append_assoc]
  refine FileTree.read_of_name h.leads.above h.directories (FilePath.isStep_of_fileName? hname)
    hrest ?_ ?_ ?_
  · rw [h.node?, if_neg (append_name_inj.not.mpr hne), if_neg (append_name_inj.not.mpr hsibling)]
  · rw [hcomponents, h.leads.goesOn (fun _ hx => hx) hdots]
  · rw [hcomponents, h.leads.goesOn h.directories hdots]

end Replaces

/-! ### Footprints -/

/-- **All that a write to disk changes in a tree**, if it leaves some bytes at a name in a
directory. -/
structure Footprint (tree : FileTree) (path : FilePath) (bytes : Bytes) (t : FileTree)
    (dir : List String) (name : List Char) : Prop where
  named : path.fileName? = some name
  located : t.locate path = .ok (dir ++ [String.ofList name])
  beside : t.locate (temporary path) = .ok (dir ++ [String.ofList (temporaryName name)])
  /-- The directory is there, and all that lead to it. -/
  above : ∀ x, x <+: dir → t.node? x = some .directory
  /-- The file holds the bytes. -/
  written : t.read path = .ok bytes
  /-- Nothing stands at the temporary sibling, if it is another place. -/
  emptied : temporaryName name ≠ name →
    t.node? (dir ++ [String.ofList (temporaryName name)]) = none
  /-- **Everything else is as before**, but for directories that were missing on the way. -/
  kept : ∀ x, x ≠ dir ++ [String.ofList name] → x ≠ dir ++ [String.ofList (temporaryName name)] →
    t.node? x = tree.node? x ∨ tree.node? x = none ∧ t.node? x = some .directory ∧
      ∃ parent, path.parent? = some parent ∧ t.IsOnWay parent.components x
  /-- No directory is taken away. -/
  directories : ∀ x, tree.node? x = some .directory → t.node? x = some .directory

/-- **A file that is replaced once its directory is made** leaves the footprint of a write. -/
theorem Replaces.footprint (h : Replaces (prepare tree path).tree path parent bytes t dir name) :
    Footprint tree path bytes t dir name where
  named := h.named
  located := h.located
  beside := h.beside
  above x hx := h.directories x (h.leads.above x hx)
  written := h.written
  emptied hne := by rw [h.node?, if_neg (append_name_inj.not.mpr hne), if_pos rfl]
  kept x hx hsibling := by
    rw [h.node?, if_neg hx, if_neg hsibling]
    rcases prepare_grows tree path x with heq | ⟨hnone, hdir⟩
    · exact .inl heq
    · rcases prepare_cases h.parented x with heq | hway
      · exact .inl heq
      · exact .inr ⟨hnone, hdir, parent, h.parented, hway.mono (List.prefix_refl _) h.directories⟩
  directories x hx := h.directories x ((prepare_grows tree path).node? hx)

/-- **A write to disk that is done** replaces the file at the path, once its directory is made. -/
theorem replaces_of_save (h : (save tree path entries).fault = none) :
    ∃ parent dir name, Replaces (prepare tree path).tree path parent (content entries)
      (save tree path entries).tree dir name := by
  obtain ⟨t, t', hwrite, hrename, heq⟩ := exists_of_save h
  rw [heq]
  exact replaces_of_rename hwrite hrename

/-- What a start shows is decided by what is read at the path. -/
theorem start_congr {s : FileStore} (h : t.read s.path = tree.read s.path) :
    s.start t = s.start tree := by
  rw [start, start, load_congr h]

/-- **A call that adds entries touches its own file and the temporary sibling.** If it succeeds, all
that the store knows is at the path, in a directory that was made if it was missing; no file stands
at the temporary sibling; everything else in the tree is as before. A store on another path with the
same parent starts as it would have before, if its name is not that of the temporary sibling either
and it names a file, as it does if that is there. -/
theorem set_leaves_others {s : FileStore} {new : Entries} (hdone : (s.set tree new).error = none) :
    ∃ dir name,
      Footprint tree s.path (content (Dictionary.merge s.entries new)) (s.set tree new).tree
        dir name ∧
      ∀ (other : FileStore) (name' : List Char), other.path.parent? = s.path.parent? →
        other.path.fileName? = some name' → name' ≠ name → name' ≠ temporaryName name →
        NamesFile tree other.path →
        other.start (s.set tree new).tree = other.start tree := by
  obtain ⟨parent, dir, name, h⟩ := replaces_of_save (Option.map_eq_none_iff.mp hdone)
  refine ⟨dir, name, h.footprint, fun other name' hparent hname hne hsibling hfile => ?_⟩
  have hread := h.read_other (hparent.trans h.parented) hname hne hsibling
  refine start_congr (hread.trans ?_)
  by_cases hmissing : tree.read other.path = .error .notFound
  · rw [← prepare_congr hparent, hfile.2 hmissing, hmissing]
  · exact FileTree.read_of_grows (prepare_grows tree s.path) hmissing

/-- A file of another program stands at the temporary sibling, and the file of another store in the
same directory. -/
theorem set_leaves_others_in_directory :
    let s : FileStore := { path := ⟨"data/offsets.json"⟩ }
    let other : FileStore := { path := ⟨"data/other.json"⟩ }
    let new : Entries := [([1], [2])]
    let tree : FileTree := [(["data"], .directory), (["data", "offsets.tmp"], .file [3]),
      (["data", "other.json"], .file (content [([5], [6])]))]
    (s.set tree new).error = none ∧
      (∃ dir name, Footprint tree s.path (content new) (s.set tree new).tree dir name) ∧
        other.start (s.set tree new).tree = .ok { other with entries := [([5], [6])] } := by
  intro s other new tree
  have hdone : (s.set tree new).error = none := by decide +kernel
  have hfile : NamesFile tree other.path := ⟨by decide, by decide +kernel⟩
  have hstart : other.start tree = .ok { other with entries := [([5], [6])] } := by decide +kernel
  obtain ⟨dir, name, hfootprint, hothers⟩ := set_leaves_others hdone
  obtain rfl : "offsets.json".toList = name :=
    Option.some.inj ((by decide : s.path.fileName? = _).symm.trans hfootprint.named)
  refine ⟨hdone, ⟨dir, _, hfootprint⟩, ?_⟩
  rw [hothers other "other.json".toList (by decide) (by decide) (by decide) (by decide) hfile]
  exact hstart

/-- **A call that adds entries may take away a file that is not its own**: what stands at the
temporary sibling, be it the file of another store. And a directory that it makes may stand where
another store was to make its file. -/
theorem not_set_leaves_all_others :
    (¬ ∀ (tree : FileTree) (s : FileStore) (new : Entries), (s.set tree new).error = none →
      ∀ x, (s.set tree new).tree.locate s.path ≠ .ok x →
        (s.set tree new).tree.node? x = tree.node? x ∨
          tree.node? x = none ∧ (s.set tree new).tree.node? x = some .directory) ∧
    (¬ ∀ (tree : FileTree) (s other : FileStore) (new : Entries), (s.set tree new).error = none →
      other.path ≠ s.path → other.path.parent? = s.path.parent? → NamesFile tree other.path →
        other.start (s.set tree new).tree = other.start tree) ∧
    ¬ ∀ (tree : FileTree) (s other : FileStore) (new : Entries), (s.set tree new).error = none →
      other.path.parent? = s.path.parent? →
      (∀ name name', s.path.fileName? = some name → other.path.fileName? = some name' →
        name' ≠ name ∧ name' ≠ temporaryName name) →
        other.start (s.set tree new).tree = other.start tree := by
  let s : FileStore := { path := ⟨"offsets.json"⟩ }
  let other : FileStore := { path := ⟨"offsets.tmp"⟩ }
  let tree : FileTree := [(["offsets.tmp"], .file (content [([1], [2])]))]
  have hdone : (s.set tree [([3], [4])]).error = none := by decide +kernel
  refine ⟨fun hall => ?_, fun hall => ?_, fun hall => ?_⟩
  · have hkept := hall tree s [([3], [4])] hdone ["offsets.tmp"] (by decide +kernel)
    revert hkept
    decide +kernel
  · have hstart := hall tree s other [([3], [4])] hdone (by decide) (by decide)
      ⟨by decide, by decide +kernel⟩
    revert hstart
    decide +kernel
  · let s : FileStore := { path := ⟨"data/../offsets.json"⟩ }
    let other : FileStore := { path := ⟨"data/../data"⟩ }
    have hname : s.path.fileName? = some "offsets.json".toList := by decide
    have hname' : other.path.fileName? = some "data".toList := by decide
    have hnames : ∀ name name', s.path.fileName? = some name → other.path.fileName? = some name' →
        name' ≠ name ∧ name' ≠ temporaryName name := by
      intro name name' h h'
      obtain rfl := Option.some.inj (hname.symm.trans h)
      obtain rfl := Option.some.inj (hname'.symm.trans h')
      decide
    have hstart := hall [] s other [([3], [4])] (by decide +kernel) (by decide) hnames
    revert hstart
    decide +kernel

end FileStore

end ChangeCapture
