import ChangeCapture.Proofs.Storage.Content
import ChangeCapture.Proofs.Storage.FileTree
import ChangeCapture.Storage.Store

/-!
# What a store holds

What counts after a restart is what a store will show when it starts anew. A start that succeeds
shows what the store holds. A write changes that to all of the new entries over the old ones, or not
at all; one that succeeds changes it.

## Main definitions

* `Store.Holds`: what a store would show if it started.
* `Store.IsOrdered`: the entries that a file store knows are sorted.

## Main results

* `FileStore.start_eq_ok` — a file store that starts knows what it loads.
* `FileStore.load_save` — what was saved is loaded.
* `Store.start_eq_ok` — a start shows what the store holds.
* `Store.holds_set`, `Store.holds_set_of_succeeds` — a write changes what a store holds as a whole,
  or not.
-/

namespace ChangeCapture

namespace FileStore

variable {tree tree' : FileTree} {path : FilePath} {entries m : Entries}

/-- **What the file at a path spells**, once some more directories may have been made: a path with
steps may lead through directories that were missing before. -/
def Spells (tree : FileTree) (path : FilePath) (m : Entries) : Prop :=
  ∃ tree', tree.GrowsTo tree' ∧ load tree' path = .ok m

/-- A file that spells something after directories were made spelled it before. -/
theorem Spells.of_grows (hg : tree.GrowsTo tree') (h : Spells tree' path m) :
    Spells tree path m := by
  obtain ⟨t, ht, hm⟩ := h
  exact ⟨t, hg.trans ht, hm⟩

/-- Whatever is loaded is sorted. -/
theorem sorted_load (h : load tree path = .ok m) : Dictionary.Sorted m := by
  rw [load] at h
  split at h
  · exact sorted_decode h
  · obtain rfl := Except.ok.inj h
    trivial
  · cases h

/-- **A store that starts knows what it loads**, and has the path that it had. -/
theorem start_eq_ok {s s' : FileStore} :
    s.start tree = .ok s' ↔
      ∃ entries, load tree s.path = .ok entries ∧ s' = { s with entries } := by
  rw [start]
  cases load tree s.path with
  | error e => exact ⟨by rintro ⟨⟩, by rintro ⟨_, ⟨⟩, -⟩⟩
  | ok entries =>
    constructor
    · intro h
      exact ⟨entries, rfl, (Except.ok.inj h).symm⟩
    · rintro ⟨_, h, rfl⟩
      rw [Except.ok.inj h]

/-- Preparing a write makes directories and nothing else. -/
theorem prepare_grows (tree : FileTree) (path : FilePath) :
    tree.GrowsTo (prepare tree path).tree := by
  rw [prepare]
  split
  · exact .refl tree
  · split
    · exact .refl tree
    · exact FileTree.createDirs_grows tree _

/-- **The temporary sibling hides nothing.** After it is written, the file spells what it spelled
before, or the path leads to the sibling itself. -/
theorem spells_of_write {content : Bytes} (h : tree.write (temporary path) content = .ok tree')
    (hm : Spells tree' path m) : Spells tree path m ∨ decode content = .ok m := by
  obtain ⟨a, -, hdir, rfl⟩ := FileTree.write_eq_ok h
  obtain ⟨t, ht, hload⟩ := hm
  have ha := FileTree.ne_nil_of_node? hdir
  have hta : t.node? a = some (.file content) :=
    ht.node? (by rw [FileTree.node?_put ha, if_pos rfl])
  -- The tree as it would be without the sibling.
  have hrestore := FileTree.node?_restore (t := t) ha (tree.node? a)
  have hgrows : tree.GrowsTo (FileTree.restore a (tree.node? a) t) := by
    intro x
    rw [hrestore]
    split
    · rename_i hx
      exact .inl (by rw [hx])
    · rename_i hx
      have := ht x
      rwa [FileTree.node?_put ha, if_neg hx] at this
  have hsame : ∀ {x : List String} {node : Option FileNode}, node ≠ some (.file content) →
      t.node? x = node →
      (FileTree.restore a (tree.node? a) t).node? x = node := by
    intro x node hne hx
    have hxa : x ≠ a := by
      rintro rfl
      exact hne (hx.symm.trans hta)
    rw [hrestore, if_neg hxa, hx]
  have hdirs : ∀ x, t.node? x = some .directory →
      (FileTree.restore a (tree.node? a) t).node? x = some .directory := fun x hx => hsame nofun hx
  have hnones : ∀ x, t.node? x = none → (FileTree.restore a (tree.node? a) t).node? x = none :=
    fun x hx => hsame nofun hx
  rw [load, FileTree.read] at hload
  cases hb : t.locate path with
  | error fault =>
    rw [hb] at hload
    cases fault with
    | notFound =>
      refine .inl ⟨_, hgrows, ?_⟩
      rw [load, FileTree.read, FileTree.locate_of_notFound hdirs hnones hb]
      exact hload
    | _ => cases hload
  | ok b =>
    rw [hb] at hload
    dsimp only at hload
    by_cases hba : b = a
    · rw [hba, hta] at hload
      dsimp only at hload
      split at hload
      · rename_i hread
        split at hread
        · cases hread
        · exact .inr (Except.ok.inj hread ▸ hload)
      · rename_i hread
        split at hread <;> cases hread
      · cases hload
    · refine .inl ⟨_, hgrows, ?_⟩
      rw [load, FileTree.read, FileTree.locate_of_ok hdirs hb]
      dsimp only
      rw [hrestore, if_neg hba]
      exact hload

/-- **What is moved to the path is found there**, whatever directories are made. -/
theorem load_of_rename {content : Bytes} {t₁ t₂ t₃ : FileTree}
    (hwrite : t₁.write (temporary path) content = .ok t₂)
    (hrename : t₂.rename (temporary path) path = .ok t₃) (hg : t₃.GrowsTo tree') :
    load tree' path = decode content := by
  obtain ⟨a, ha, hadir, rfl⟩ := FileTree.write_eq_ok hwrite
  obtain ⟨a', b, c, ha', hb, hac, hbdir, hslash, rfl⟩ := FileTree.rename_eq_ok hrename
  have hane := FileTree.ne_nil_of_node? hadir
  have hbne := FileTree.ne_nil_of_node? hbdir
  have hput := FileTree.node?_put (t := t₁) hane (.file content)
  -- The sibling is found where it was written.
  have haa : a' = a := by
    have hdirs : ∀ x, t₁.node? x = some .directory →
        FileTree.node? (Dictionary.put a (.file content) t₁) x = some .directory := by
      intro x hx
      have hxa : x ≠ a := by
        rintro rfl
        exact hadir hx
      rw [hput, if_neg hxa, hx]
    exact Except.ok.inj (ha'.symm.trans (FileTree.locate_of_ok hdirs ha))
  subst haa
  rw [hput, if_pos rfl] at hac
  obtain rfl : content = c := FileNode.file.inj (Option.some.inj hac)
  -- The path leads where the sibling was moved to.
  have hnode : tree'.node? b = some (.file content) := by
    refine hg.node? ?_
    rw [FileTree.node?_put hbne, if_pos rfl]
  have hloc : tree'.locate path = .ok b := by
    refine FileTree.locate_of_ok (fun x hx => hg.node? ?_) hb
    have hxb : x ≠ b := by
      rintro rfl
      exact hbdir hx
    have hxa : x ≠ a' := by
      rintro rfl
      rw [hput, if_pos rfl] at hx
      cases hx
    rw [FileTree.node?_put hbne, if_neg hxb, FileTree.node?_erase hane, if_neg hxa, hx]
  rw [load, FileTree.read, hloc]
  dsimp only
  rw [hnode, hslash]
  rfl

/-- **How a write to disk may go**: it stops after making directories, or after writing the sibling,
or it is done. -/
theorem save_cases (tree : FileTree) (path : FilePath) (entries : Entries) :
    (∃ fault, save tree path entries = ⟨(prepare tree path).tree, some fault⟩) ∨
    ∃ t, (prepare tree path).tree.write (temporary path) (content entries) = .ok t ∧
      ((∃ fault, save tree path entries = ⟨t, some fault⟩) ∨
        ∃ t', t.rename (temporary path) path = .ok t' ∧ save tree path entries = ⟨t', none⟩) := by
  cases hprep : prepare tree path with
  | mk t₁ fault? =>
    rw [save, hprep]
    cases fault? with
    | some fault => exact .inl ⟨fault, rfl⟩
    | none =>
      cases hwrite : t₁.write (temporary path) (content entries) with
      | error fault => exact .inl ⟨fault, by simp⟩
      | ok t₂ =>
        refine .inr ⟨t₂, rfl, ?_⟩
        cases hrename : t₂.rename (temporary path) path with
        | error fault => exact .inl ⟨fault, by simp [hrename]⟩
        | ok t₃ => exact .inr ⟨t₃, rfl, by simp [hrename]⟩

/-- The steps of a write that is done. -/
theorem exists_of_save (h : (save tree path entries).fault = none) :
    ∃ t t', (prepare tree path).tree.write (temporary path) (content entries) = .ok t ∧
      t.rename (temporary path) path = .ok t' ∧ save tree path entries = ⟨t', none⟩ := by
  obtain ⟨fault, heq⟩ | ⟨t, hwrite, ⟨fault, heq⟩ | ⟨t', hrename, heq⟩⟩ :=
    save_cases tree path entries
  · rw [heq] at h
    cases h
  · rw [heq] at h
    cases h
  · exact ⟨t, t', hwrite, hrename, heq⟩

/-- **A write that is done** leaves its content at the path. -/
theorem load_of_save (h : (save tree path entries).fault = none)
    (hg : (save tree path entries).tree.GrowsTo tree') :
    load tree' path = decode (content entries) := by
  obtain ⟨t, t', hwrite, hrename, heq⟩ := exists_of_save h
  rw [heq] at hg
  exact load_of_rename hwrite hrename hg

/-- **What was saved is loaded.** -/
theorem load_save (hm : Dictionary.Sorted m) (h : (save tree path m).fault = none) :
    load (save tree path m).tree path = .ok m := by
  rw [load_of_save h (.refl _), decode_content hm]

/-- **A write changes what the file spells as a whole, or not at all.** -/
theorem spells_of_save (h : Spells (save tree path entries).tree path m) :
    Spells tree path m ∨ decode (content entries) = .ok m := by
  have hprep := prepare_grows tree path
  obtain ⟨fault, heq⟩ | ⟨t, hwrite, ⟨fault, heq⟩ | ⟨t', hrename, heq⟩⟩ :=
    save_cases tree path entries
  · rw [heq] at h
    exact .inl (h.of_grows hprep)
  · rw [heq] at h
    exact (spells_of_write hwrite h).imp_left fun h => h.of_grows hprep
  · rw [heq] at h
    obtain ⟨t₄, ht, hm⟩ := h
    rw [load_of_rename hwrite hrename ht] at hm
    exact .inr hm

end FileStore

namespace Store

variable {st st' : Store} {m es : Entries}

/-- **What a store holds**: what it would show if it started. -/
def Holds : Store → Entries → Prop
  | .memory entries, m => m = entries
  | .file store tree, m => FileStore.Spells tree store.path m

/-- The entries that a file store knows are sorted. -/
def IsOrdered : Store → Prop
  | .memory _ => True
  | .file store _ => Dictionary.Sorted store.entries

/-- A store in a file starts as the file store does, and leaves the tree. -/
theorem exists_of_file_start {store : FileStore} {tree : FileTree}
    (h : (Store.file store tree).start = .ok st') :
    ∃ store', store.start tree = .ok store' ∧ st' = .file store' tree := by
  rw [start] at h
  split at h
  · rename_i store' hstart
    exact ⟨store', hstart, (Except.ok.inj h).symm⟩
  · cases h

/-- **A start shows what the store holds**, and changes nothing of it. -/
theorem start_eq_ok (h : st.start = .ok st') :
    st.Holds st'.entries ∧ st'.IsOrdered ∧ ∀ m, st'.Holds m ↔ st.Holds m := by
  cases st with
  | memory entries =>
    obtain rfl := Except.ok.inj h
    exact ⟨rfl, trivial, fun _ => Iff.rfl⟩
  | file store tree =>
    obtain ⟨store', hstart, rfl⟩ := exists_of_file_start h
    obtain ⟨entries, hload, rfl⟩ := FileStore.start_eq_ok.mp hstart
    exact ⟨⟨tree, .refl tree, hload⟩, FileStore.sorted_load hload, fun _ => Iff.rfl⟩

/-- After a write a store knows the new entries over the old ones. -/
theorem entries_set (es : Entries) (st : Store) :
    (st.set es).1.entries = Dictionary.merge st.entries es := by
  cases st <;> rfl

/-- A write keeps the entries sorted. -/
theorem IsOrdered.set (h : st.IsOrdered) (es : Entries) : (st.set es).1.IsOrdered := by
  cases st with
  | memory entries => trivial
  | file store tree => exact Dictionary.Sorted.merge h es

/-- **A write changes what a store holds as a whole**, or not at all. -/
theorem holds_set (ho : st.IsOrdered) (h : (st.set es).1.Holds m) :
    st.Holds m ∨ m = Dictionary.merge st.entries es := by
  cases st with
  | memory entries => exact .inr h
  | file store tree =>
    refine (FileStore.spells_of_save h).imp_right ?_
    intro hd
    rw [FileStore.decode_content (Dictionary.Sorted.merge ho es)] at hd
    exact (Except.ok.inj hd).symm

/-- **A write that succeeds** leaves nothing of what a store held before. -/
theorem holds_set_of_succeeds (ho : st.IsOrdered) (hok : (st.set es).2 = none)
    (h : (st.set es).1.Holds m) :
    m = Dictionary.merge st.entries es := by
  cases st with
  | memory entries => exact h
  | file store tree =>
    obtain ⟨t, ht, hm⟩ := h
    have hfault :
        (FileStore.save tree store.path (Dictionary.merge store.entries es)).fault = none :=
      Option.map_eq_none_iff.mp hok
    have hload : FileStore.load t store.path = .ok (Dictionary.merge store.entries es) := by
      rw [FileStore.load_of_save hfault ht,
        FileStore.decode_content (Dictionary.Sorted.merge ho es)]
    exact Except.ok.inj (hm.symm.trans hload)

end Store

end ChangeCapture
