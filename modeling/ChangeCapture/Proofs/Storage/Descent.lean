import ChangeCapture.Proofs.Storage.Crash

/-!
# Paths that lead down

A path without two dots leads down from the working directory, name by name. Making its directory
adds directories above its last name and nothing else, so whatever is missing of it beforehand, no
file or directory comes to stand at the path itself: it names a file.

## Main definitions

* `FilePath.leadsDown`: a component that leaves no directory.
* `FilePath.names`: the components that are no lone dots.
* `FileTree.IsClosed`: a tree in which everything stands in a directory.
* `FileTree.IsGap`: a place where nothing stands, with no file in the way to it.

## Main results

* `FileTree.walk_cases` — a path that leads down is followed to its end, a gap or a file.
* `FileStore.isClosed_save` — file stores leave everything in a directory.
* `FileStore.namesFile_of_leadsDown` — a path that leads down names a file.
-/

namespace ChangeCapture

namespace FilePath

/-- Whether a component leaves no directory; a name may not be too long either. -/
def leadsDown (component : String) : Bool :=
  component ≠ ".." && component.utf8ByteSize ≤ nameLimit

/-- The components that are no lone dots. -/
def names (cs : List String) : List String :=
  cs.filter (· ≠ ".")

variable {cs dots : List String} {p parent : FilePath}

theorem names_append (cs ds : List String) : names (cs ++ ds) = names cs ++ names ds :=
  List.filter_append ..

theorem names_dots (hdots : ∀ c ∈ dots, c = ".") : names dots = [] :=
  List.filter_eq_nil_iff.mpr fun c hc => by simp [hdots c hc]

/-- What leads to the directory of a path is its parent, and lone dots. -/
theorem componentsIn_lastPart (h : p.parent? = some parent) :
    ∃ dots, componentsIn p.lastPart.2.reverse = parent.components ++ dots ∧
      ∀ c ∈ dots, c = "." := by
  obtain ⟨r, hr, hbefore⟩ := exists_idle p.lastPart.2
  refine ⟨componentsIn r.reverse, ?_, eq_dot_of_idle hr⟩
  rw [parent?] at h
  dsimp only at h
  split at h
  · cases h
  · obtain rfl := Option.some.inj h
    rw [components_ofList, ← componentsIn_append_of_head (eq_slash_of_idle hr),
      ← List.reverse_append, ← hbefore]

/-- **The parent of a path has its components but for the last name**, and for lone dots. -/
theorem components_of_parent? (h : p.fileName? ≠ none) (hparent : p.parent? = some parent) :
    ∃ dots rest, p.components = parent.components ++ dots ++ rest ∧ (∀ c ∈ dots, c = ".") ∧
      names rest ≠ [] := by
  obtain ⟨name, hname⟩ := Option.ne_none_iff_exists'.mp h
  obtain ⟨dots, hcomponents, -⟩ := components_of_fileName? hname
  obtain ⟨dots', hlead, hdots'⟩ := componentsIn_lastPart hparent
  have hstep := isStep_of_fileName? hname
  rw [isStep, Bool.or_eq_false_iff, decide_eq_false_iff_not] at hstep
  refine ⟨dots', String.ofList name :: dots, by rw [hcomponents, hlead], hdots', ?_⟩
  rw [names, List.filter_cons_of_pos (by simp [hstep.1])]
  exact List.cons_ne_nil _ _

end FilePath

namespace FileTree

variable {t t' : FileTree} {place place' x : List String} {c : String} {cs : List String}
  {p : FilePath}

/-! ### Following a path down -/

/-- A component that leads down is entered. -/
theorem enter_of_leadsDown (place : List String) (h : FilePath.leadsDown c = true) :
    enter place c = .ok (place ++ FilePath.names [c]) := by
  rw [FilePath.leadsDown, Bool.and_eq_true, decide_eq_true_eq, decide_eq_true_eq] at h
  by_cases hdot : c = "."
  · subst hdot
    exact congrArg Except.ok (List.append_nil _).symm
  · rw [enter, if_neg hdot, if_neg h.1, if_neg (Nat.not_lt.mpr h.2), FilePath.names,
      List.filter_cons_of_pos (by simp [hdot])]
    rfl

/-- **A path that leads down is followed** to its end, to where something is missing, or to a file
that it cannot pass; on the way there are directories. -/
theorem walk_cases (hplace : ∀ x, x <+: place → t.node? x = some .directory)
    (hcs : ∀ c ∈ cs, FilePath.leadsDown c = true) :
    ∃ q, q <+: place ++ FilePath.names cs ∧
      (∀ x, x <+: q → x ≠ q → t.node? x = some .directory) ∧
      (q = place ++ FilePath.names cs ∧ t.walk place cs = .ok q ∨
        t.node? q = none ∧ t.walk place cs = .error .notFound ∨
        (∃ content, t.node? q = some (.file content)) ∧
          t.walk place cs = .error .notDirectory) := by
  induction cs generalizing place with
  | nil =>
    refine ⟨place, List.prefix_append _ _, fun x hx _ => hplace x hx, .inl ⟨?_, rfl⟩⟩
    exact (List.append_nil _).symm
  | cons c cs ih =>
    have henter := enter_of_leadsDown place (hcs c List.mem_cons_self)
    have hnames : place ++ FilePath.names (c :: cs) =
        place ++ FilePath.names [c] ++ FilePath.names cs := by
      rw [List.append_assoc, ← FilePath.names_append, List.singleton_append]
    -- The names above the next place are those above this one, and this one.
    have habove : ∀ x, x <+: place ++ FilePath.names [c] → x ≠ place ++ FilePath.names [c] →
        t.node? x = some .directory := by
      intro x hx hne
      by_cases hdot : c = "."
      · subst hdot
        exact hplace x ((List.append_nil place) ▸ hx)
      · rw [FilePath.names, List.filter_cons_of_pos (by simp [hdot])] at hx hne
        rcases List.prefix_concat_iff.mp hx with rfl | hx
        · exact absurd rfl hne
        · exact hplace x hx
    by_cases hlast : cs = []
    · subst hlast
      have hend := hnames.trans (List.append_nil _)
      exact ⟨_, hend ▸ List.prefix_refl _, habove, .inl ⟨hend.symm, henter⟩⟩
    · rw [walk.eq_3 _ _ _ _ hlast, henter, hnames]
      dsimp only [expectDirectory]
      cases hn : t.node? (place ++ FilePath.names [c]) with
      | none => exact ⟨_, List.prefix_append _ _, habove, .inr (.inl ⟨hn, rfl⟩)⟩
      | some node =>
        cases node with
        | file content =>
          exact ⟨_, List.prefix_append _ _, habove, .inr (.inr ⟨⟨content, hn⟩, rfl⟩)⟩
        | directory =>
          refine ih (fun x hx => ?_) fun c hc => hcs c (List.mem_cons_of_mem _ hc)
          by_cases heq : x = place ++ FilePath.names [c]
          · rw [heq, hn]
          · exact habove x hx heq

/-- Nothing but the working directory is above it. -/
theorem node?_root (x : List String) (hx : x <+: []) : t.node? x = some .directory := by
  rw [List.prefix_nil.mp hx]
  rfl

/-- Where a path that leads down leads to. -/
theorem eq_names_of_walk (hcs : ∀ c ∈ cs, FilePath.leadsDown c = true)
    (h : t.walk [] cs = .ok place) : place = FilePath.names cs := by
  obtain ⟨q, -, -, ⟨rfl, hq⟩ | ⟨-, hq⟩ | ⟨-, hq⟩⟩ := walk_cases (t := t) node?_root hcs
  · exact (Except.ok.inj (hq.symm.trans h)).symm
  · rw [hq] at h
    cases h
  · rw [hq] at h
    cases h

/-! ### Making directories down a path -/

/-- Ensuring a directory leaves what is further down. -/
theorem node?_ensureDir (hcs : ∀ c ∈ cs, FilePath.leadsDown c = true)
    (hx : (FilePath.names cs).length < x.length) : (t.ensureDir cs).tree.node? x = t.node? x := by
  rw [ensureDir, createDir]
  cases hw : t.walk [] cs with
  | error fault => rfl
  | ok place =>
    dsimp only
    obtain rfl := eq_names_of_walk hcs hw
    cases hn : t.node? (FilePath.names cs) with
    | some node => rfl
    | none =>
      dsimp only
      rw [node?_put (ne_nil_of_node? (by rw [hn]; rintro ⟨⟩)), if_neg]
      rintro rfl
      exact absurd hx (Nat.lt_irrefl _)

/-- Ensuring a directory and those that lead to it leaves what is further down. -/
theorem node?_ensureDirs (hcs : ∀ c ∈ cs, FilePath.leadsDown c = true)
    (hx : (FilePath.names cs.reverse).length < x.length) :
    (t.ensureDirs cs).tree.node? x = t.node? x := by
  induction cs with
  | nil => rfl
  | cons c cs ih =>
    have hreverse : ∀ d ∈ (c :: cs).reverse, FilePath.leadsDown d = true :=
      fun d hd => hcs d (List.mem_reverse.mp hd)
    have habove : (FilePath.names cs.reverse).length < x.length := by
      rw [List.reverse_cons, FilePath.names_append, List.length_append] at hx
      omega
    have hlead := ih (fun d hd => hcs d (List.mem_cons_of_mem _ hd)) habove
    rw [ensureDirs]
    dsimp only
    split
    · split
      · exact (node?_ensureDir hreverse hx).trans hlead
      · exact hlead
    · exact node?_ensureDir hreverse hx

/-! ### Gaps -/

/-- **Everything stands in a directory.** -/
def IsClosed (t : FileTree) : Prop :=
  ∀ x y, x <+: y → x ≠ y → t.node? y ≠ none → t.node? x = some .directory

namespace IsClosed

/-- Where nothing stands there is nothing below. -/
theorem node?_eq_none {y : List String} (hclosed : t.IsClosed) (hx : x <+: y)
    (hnone : t.node? x = none) : t.node? y = none := by
  by_contra hy
  by_cases heq : x = y
  · exact hy (heq ▸ hnone)
  · rw [hclosed x y hx heq hy] at hnone
    cases hnone

/-- Nothing but the working directory is there. -/
theorem nil : IsClosed [] := by
  intro x y hx hne hy
  cases y with
  | nil => exact absurd (List.prefix_nil.mp hx) hne
  | cons c cs => exact absurd rfl hy

/-- What is put in a directory, and in place of no directory, stands in a directory. -/
theorem put (hclosed : t.IsClosed) (habove : ∀ x, x <+: place → x ≠ place →
    t.node? x = some .directory) (hdir : t.node? place ≠ some .directory) (node : FileNode) :
    IsClosed (Dictionary.put place node t) := by
  intro x y hx hne hy
  have hput := node?_put (t := t) (ne_nil_of_node? hdir) node
  have hold : t.node? x = some .directory := by
    rw [hput] at hy
    split at hy
    · rename_i hplace
      subst hplace
      exact habove x hx hne
    · exact hclosed x y hx hne hy
  rw [hput, if_neg, hold]
  rintro rfl
  exact hdir hold

/-- A file may be taken away, for nothing stands in it. -/
theorem erase {content : Bytes} (hclosed : t.IsClosed)
    (hfile : t.node? place = some (.file content)) : IsClosed (Dictionary.erase place t) := by
  intro x y hx hne hy
  have herase := node?_erase (t := t) (ne_nil_of_node? (by rw [hfile]; rintro ⟨⟩))
  rw [herase] at hy ⊢
  have hold : t.node? x = some .directory := by
    split at hy
    · exact absurd rfl hy
    · exact hclosed x y hx hne hy
  rw [if_neg, hold]
  rintro rfl
  rw [hfile] at hold
  cases hold

end IsClosed

/-- What a path leads to stands in a directory. -/
theorem above_of_walk (hplace : ∀ x, x <+: place → t.node? x = some .directory)
    (h : t.walk place cs = .ok place') :
    ∀ x, x <+: place' → x ≠ place' → t.node? x = some .directory := by
  induction cs generalizing place with
  | nil =>
    obtain rfl := Except.ok.inj h
    exact fun x hx _ => hplace x hx
  | cons c cs ih =>
    by_cases hlast : cs = []
    · subst hlast
      intro x hx hne
      obtain hpre | ⟨-, rfl⟩ := enter_eq_ok h
      · exact hplace x (hx.trans hpre)
      · exact hplace x ((List.prefix_concat_iff.mp hx).resolve_left hne)
    · obtain ⟨next, henter, hdir, hwalk⟩ := walk_cons_eq_ok hlast h
      refine ih (fun x hx => ?_) hwalk
      obtain hpre | ⟨-, rfl⟩ := enter_eq_ok henter
      · exact hplace x (hx.trans hpre)
      · rcases List.prefix_concat_iff.mp hx with rfl | hx
        · exact hdir
        · exact hplace x hx

/-- Whether nothing stands at a place, and no file is in the way to it. -/
structure IsGap (t : FileTree) (place : List String) : Prop where
  missing : t.node? place = none
  unblocked : ∀ x content, x <+: place → t.node? x ≠ some (.file content)

/-- A path that leads to nothing in a closed tree leads to a gap. -/
theorem isGap_of_walk (hcs : ∀ c ∈ cs, FilePath.leadsDown c = true) (hclosed : t.IsClosed)
    (h : t.walk [] cs = .error .notFound ∨
      ∃ place, t.walk [] cs = .ok place ∧ t.node? place = none) :
    t.IsGap (FilePath.names cs) := by
  obtain ⟨q, hq, habove, hwalk⟩ := walk_cases (t := t) node?_root hcs
  -- Where the path comes to a stop, nothing stands.
  have hnone : t.node? q = none := by
    obtain ⟨-, hwalk⟩ | ⟨hnone, -⟩ | ⟨-, hwalk⟩ := hwalk
    · obtain h | ⟨place, h, hnone⟩ := h
      · rw [hwalk] at h
        cases h
      · obtain rfl := Except.ok.inj (hwalk.symm.trans h)
        exact hnone
    · exact hnone
    · obtain h | ⟨place, h, -⟩ := h <;> rw [hwalk] at h <;> cases h
  refine ⟨hclosed.node?_eq_none hq hnone, fun x content hx hfile => ?_⟩
  rcases List.prefix_or_prefix_of_prefix hx hq with hxq | hqx
  · by_cases heq : x = q
    · rw [heq, hnone] at hfile
      cases hfile
    · rw [habove x hxq heq] at hfile
      cases hfile
  · rw [hclosed.node?_eq_none hqx hnone] at hfile
    cases hfile

/-- A path that leads down to a gap comes to it, or to one before it. -/
theorem IsGap.walk (h : t.IsGap (FilePath.names cs))
    (hcs : ∀ c ∈ cs, FilePath.leadsDown c = true) :
    t.walk [] cs = .error .notFound ∨ t.walk [] cs = .ok (FilePath.names cs) := by
  obtain ⟨q, hq, -, ⟨rfl, hwalk⟩ | ⟨-, hwalk⟩ | ⟨⟨content, hfile⟩, -⟩⟩ :=
    walk_cases (t := t) node?_root hcs
  · exact .inr hwalk
  · exact .inl hwalk
  · exact absurd hfile (h.unblocked q content hq)

/-- A gap stays when directories are made beside it and above it. -/
theorem IsGap.of_grows (h : t.IsGap place) (hg : t.GrowsTo t')
    (hplace : t'.node? place = t.node? place) : t'.IsGap place where
  missing := hplace.trans h.missing
  unblocked x content hx hfile := by
    obtain heq | ⟨-, hdir⟩ := hg x
    · exact h.unblocked x content hx (heq.symm.trans hfile)
    · rw [hdir] at hfile
      cases hfile

/-- Why nothing is found at a path. -/
theorem missing_of_read (hlocate : t.locate p = t.walk [] p.components)
    (h : t.read p = .error .notFound) : t.walk [] p.components = .error .notFound ∨
      ∃ place, t.walk [] p.components = .ok place ∧ t.node? place = none := by
  rw [read, hlocate] at h
  cases hw : t.walk [] p.components with
  | error fault =>
    rw [hw] at h
    exact .inl (congrArg Except.error (Except.error.inj h))
  | ok place =>
    rw [hw] at h
    dsimp only at h
    cases hn : t.node? place with
    | none => exact .inr ⟨place, rfl, hn⟩
    | some node =>
      rw [hn] at h
      cases node with
      | directory => cases h
      | file content =>
        dsimp only at h
        split at h <;> cases h

/-- **What is missing at a path stays missing** when directories are made further up. -/
theorem read_of_above (hdown : ∀ c ∈ p.components, FilePath.leadsDown c = true)
    (hclosed : t.IsClosed) (hg : t.GrowsTo t')
    (habove : t'.node? (FilePath.names p.components) = t.node? (FilePath.names p.components))
    (h : t.read p = .error .notFound) : t'.read p = .error .notFound := by
  cases hfault : p.fault? with
  | some fault =>
    rw [read, locate, hfault] at h ⊢
    exact h
  | none =>
    by_cases hempty : p.text.isEmpty = true
    · rw [read, locate, hfault]
      dsimp only
      rw [if_pos hempty]
    · have hlocate : ∀ t : FileTree, t.locate p = t.walk [] p.components := by
        intro t
        rw [locate, hfault]
        exact if_neg hempty
      have hgap := (isGap_of_walk hdown hclosed (missing_of_read (hlocate t) h)).of_grows hg habove
      rw [read, hlocate]
      rcases hgap.walk hdown with hw | hw
      · rw [hw]
      · rw [hw]
        dsimp only
        rw [hgap.missing]

/-! ### Operations -/

namespace IsClosed

/-- A path leads to a place in a directory. -/
theorem above_of_locate (h : t.locate p = .ok place) :
    ∀ x, x <+: place → x ≠ place → t.node? x = some .directory :=
  above_of_walk node?_root (walk_of_locate h)

/-- A directory is made in a directory. -/
theorem ensureDir (hclosed : t.IsClosed) (cs : List String) : (t.ensureDir cs).tree.IsClosed := by
  rw [FileTree.ensureDir]
  split
  · rename_i h
    rw [createDir] at h
    split at h
    · cases h
    · rename_i place hw
      split at h
      · cases h
      · rename_i hnone
        obtain rfl := Except.ok.inj h
        exact hclosed.put (above_of_walk node?_root hw) (by rw [hnone]; rintro ⟨⟩) _
  · exact hclosed

/-- Directories are made in directories. -/
theorem ensureDirs (hclosed : t.IsClosed) (cs : List String) :
    (t.ensureDirs cs).tree.IsClosed := by
  induction cs with
  | nil => exact hclosed
  | cons c cs ih =>
    rw [FileTree.ensureDirs]
    dsimp only
    split
    · split
      · exact ih.ensureDir _
      · exact ih
    · exact hclosed.ensureDir _

/-- A file is written in a directory. -/
theorem write {content : Bytes} (hclosed : t.IsClosed) (h : t.write p content = .ok t') :
    t'.IsClosed := by
  obtain ⟨place, hplace, hdir, rfl⟩ := write_eq_ok h
  exact hclosed.put (above_of_locate hplace) hdir _

/-- A file is renamed in directories. -/
theorem rename {source target : FilePath} (hclosed : t.IsClosed)
    (h : t.rename source target = .ok t') : t'.IsClosed := by
  obtain ⟨a, b, content, -, hb, hfile, hdir, -, rfl⟩ := rename_eq_ok h
  have herase := node?_erase (t := t) (ne_nil_of_node? (by rw [hfile]; rintro ⟨⟩))
  refine (hclosed.erase hfile).put (fun x hx hne => ?_) ?_ _
  · have hold := above_of_locate hb x hx hne
    rw [herase, if_neg, hold]
    rintro rfl
    rw [hfile] at hold
    cases hold
  · rw [herase]
    split
    · rintro ⟨⟩
    · exact hdir

end IsClosed

end FileTree

namespace FileStore

variable {tree : FileTree} {path : FilePath}

/-- **A write to disk leaves everything in a directory**, also where it fails. -/
theorem isClosed_save (hclosed : tree.IsClosed) (path : FilePath) (entries : Entries) :
    (save tree path entries).tree.IsClosed := by
  have hprepared : (prepare tree path).tree.IsClosed := by
    rw [prepare]
    split
    · exact hclosed
    · split
      · exact hclosed
      · rw [FileTree.createDirs]
        split
        · exact hclosed
        · exact hclosed.ensureDirs _
  obtain ⟨fault, heq⟩ | ⟨t, hwrite, ⟨fault, heq⟩ | ⟨t', hrename, heq⟩⟩ :=
    save_cases tree path entries
  · rw [heq]
    exact hprepared
  · rw [heq]
    exact hprepared.write hwrite
  · rw [heq]
    exact (hprepared.write hwrite).rename hrename

/-- **A path that leads down names a file**, whatever of it is missing. -/
theorem namesFile_of_leadsDown (hfile : path.fileName? ≠ none)
    (hdown : ∀ c ∈ path.components, FilePath.leadsDown c = true) (hclosed : tree.IsClosed) :
    NamesFile tree path := by
  refine ⟨hfile, FileTree.read_of_above hdown hclosed (prepare_grows tree path) ?_⟩
  rw [prepare]
  cases hparent : path.parent? with
  | none => rfl
  | some parent =>
    dsimp only
    split
    · rfl
    · obtain ⟨dots, rest, hcomponents, hdots, hrest⟩ :=
        FilePath.components_of_parent? hfile hparent
      rw [FileTree.createDirs]
      split
      · rfl
      · have hlen : (FilePath.names parent.components).length <
            (FilePath.names path.components).length := by
          rw [hcomponents, FilePath.names_append, FilePath.names_append,
            FilePath.names_dots hdots, List.append_nil, List.length_append]
          have := List.length_pos_iff.mpr hrest
          omega
        refine FileTree.node?_ensureDirs (fun c hc => hdown c ?_) (by rwa [List.reverse_reverse])
        rw [hcomponents]
        exact List.mem_append_left _ (List.mem_append_left _ (List.mem_reverse.mp hc))

end FileStore

end ChangeCapture
