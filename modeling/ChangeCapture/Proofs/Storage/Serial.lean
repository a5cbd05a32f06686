import ChangeCapture.Proofs.Storage.Crash
import ChangeCapture.Storage.Contested
import Mathlib.Data.List.Induction

/-!
# Writes to a file store at the same time

The lock of a file store spans what a call does in memory and what it does on disk, so calls that
write at the same time do so one whole call after another, in the order in which they take the lock.
What the store knows and what its file spells differ only while a call is at work, and then by the
entries of this call alone.

Before the first call has made the directory, the path may lead to a file that was not found when
the store started: the path `b/../f` leads to `f` once `b` is there. Such a file spells nothing that
the store knows.

## Main definitions

* `ContestedStore.Takes`: what the next step of a call does.
* `ContestedStore.Serial`: what is known of the store, its file and the calls at every moment.

## Main results

* `ContestedStore.follow_alone` — the steps of one call by itself do what `FileStore.set` does.
* `ContestedStore.Serial.turn`, `ContestedStore.Serial.follow` — every step keeps what is known.
* `ContestedStore.writes_one_after_another` — concurrent writes are serialized without loss.
-/

namespace ChangeCapture

/-! ### What is read -/

namespace FileTree

variable {t t' : FileTree} {p q : FilePath} {content bytes : Bytes}

/-- What is read after a file is written is what was written, or what was read before. -/
theorem read_of_write (h : t.write p content = .ok t') (hread : t'.read q = .ok bytes) :
    bytes = content ∨ t.read q = .ok bytes := by
  obtain ⟨a, -, hdir, rfl⟩ := write_eq_ok h
  have hput := node?_put (t := t) (ne_nil_of_node? hdir) (.file content)
  rw [read] at hread ⊢
  cases hq : locate (Dictionary.put a (.file content) t) q with
  | error fault =>
    rw [hq] at hread
    cases hread
  | ok b =>
    -- Every directory on the way was there before.
    have hb : t.locate q = .ok b := by
      refine locate_of_ok (fun x hx => ?_) hq
      rw [hput] at hx
      split at hx
      · cases hx
      · exact hx
    rw [hq] at hread
    rw [hb]
    dsimp only at hread ⊢
    rw [hput] at hread
    by_cases hba : b = a
    · rw [if_pos hba] at hread
      dsimp only at hread
      split at hread
      · cases hread
      · exact .inl (Except.ok.inj hread).symm
    · rw [if_neg hba] at hread
      exact .inr hread

end FileTree

namespace FileStore

variable {tree t t' : FileTree} {path : FilePath} {bytes : Bytes} {m : Entries}

/-- What a file spells is what is loaded. -/
theorem decode_of_load (h : load tree path = .ok m) (hread : tree.read path = .ok bytes) :
    decode bytes = .ok m := by
  rw [load, hread] at h
  exact h

/-- **Making the directory of a path brings no file to it.** -/
def BringsNoFile (tree : FileTree) (path : FilePath) : Prop :=
  ∀ bytes, (prepare tree path).tree.read path = .ok bytes → tree.read path = .ok bytes

/-- No file is brought to a path that names one. -/
theorem NamesFile.bringsNoFile (h : NamesFile tree path) : BringsNoFile tree path := by
  intro bytes hread
  by_cases hmissing : tree.read path = .error .notFound
  · rw [h.2 hmissing] at hread
    cases hread
  · rw [← FileTree.read_of_grows (prepare_grows tree path) hmissing, hread]

/-- What a path spells, however many directories are made. -/
def Steady (tree : FileTree) (path : FilePath) (m : Entries) : Prop :=
  ∀ t, tree.GrowsTo t → load t path = .ok m

/-- **What is on disk** when some calls are done: the tree from the start if there are none yet. -/
def OnDisk (root : FileTree) (path : FilePath) (done : List Nat) (m : Entries) (tree : FileTree) :
    Prop :=
  done = [] ∧ tree = root ∨ Steady tree path m

/-- Making the directory changes nothing but the tree from the start. -/
theorem OnDisk.prepare {done : List Nat} (h : OnDisk tree path done m t) :
    OnDisk (prepare tree path).tree path done m (prepare t path).tree := by
  obtain ⟨hdone, rfl⟩ | hsteady := h
  · exact .inl ⟨hdone, rfl⟩
  · exact .inr fun t' ht' => hsteady t' ((prepare_grows t path).trans ht')

/-- What the file spells, if there is one. -/
theorem OnDisk.decode {root : FileTree} {done : List Nat} (h : OnDisk root path done m t)
    (hroot : done = [] → ∀ bytes, root.read path = .ok bytes → FileStore.decode bytes = .ok m)
    (hread : t.read path = .ok bytes) : FileStore.decode bytes = .ok m := by
  obtain ⟨hdone, rfl⟩ | hsteady := h
  · exact hroot hdone bytes hread
  · exact decode_of_load (hsteady t (.refl t)) hread

end FileStore

/-! ### Entries one call after another -/

namespace Entries

variable {m : Entries} {calls : List Entries} {new : Entries} {order : List Nat} {i : Nat}

/-- One call more adds its entries last. -/
theorem mergeAll_concat (m : Entries) (h : calls[i]? = some new) (order : List Nat) :
    m.mergeAll calls (order ++ [i]) = Dictionary.merge (m.mergeAll calls order) new := by
  simp [mergeAll, List.filterMap_append, h]

/-- Calls that follow others add their entries over those of the others. -/
theorem mergeAll_append (m : Entries) (calls : List Entries) (first second : List Nat) :
    m.mergeAll calls (first ++ second) = (m.mergeAll calls first).mergeAll calls second := by
  simp [mergeAll, List.filterMap_append]

/-- Entries stay sorted. -/
theorem sorted_mergeAll (h : Dictionary.Sorted m) (calls : List Entries) (order : List Nat) :
    Dictionary.Sorted (m.mergeAll calls order) := by
  rw [mergeAll]
  induction order.filterMap (calls[·]?) generalizing m with
  | nil => exact h
  | cons new rest ih => exact ih (h.merge new)

/-- What no call writes to stays. -/
theorem get?_mergeAll_of_forall_none {k : Bytes} (hsorted : ∀ new ∈ calls, Dictionary.Sorted new)
    (h : ∀ i ∈ order, ∀ new, calls[i]? = some new → Dictionary.get? k new = none) :
    Dictionary.get? k (m.mergeAll calls order) = Dictionary.get? k m := by
  induction order using List.reverseRecOn with
  | nil => rfl
  | append_singleton order i ih =>
    have hbefore := ih fun j hj => h j (List.mem_append_left _ hj)
    cases hi : calls[i]? with
    | none => simpa [mergeAll, List.filterMap_append, hi] using hbefore
    | some new =>
      rw [mergeAll_concat m hi, Dictionary.get?_merge k _ (hsorted new (List.mem_of_getElem? hi)),
        h i (by simp) new hi, Option.none_or, hbefore]

/-- **The last call that writes to a key decides** what is found there. -/
theorem get?_mergeAll {k v : Bytes} (hsorted : ∀ new ∈ calls, Dictionary.Sorted new)
    {earlier later : List Nat} (hi : calls[i]? = some new) (hv : Dictionary.get? k new = some v)
    (hlater : ∀ j ∈ later, ∀ new, calls[j]? = some new → Dictionary.get? k new = none) :
    Dictionary.get? k (m.mergeAll calls (earlier ++ i :: later)) = some v := by
  rw [List.append_cons, mergeAll_append, get?_mergeAll_of_forall_none hsorted hlater,
    mergeAll_concat m hi, Dictionary.get?_merge k _ (hsorted new (List.mem_of_getElem? hi)), hv]
  rfl

end Entries

namespace ContestedStore

open FileStore (Progress prepare temporary content load OnDisk Steady BringsNoFile)

variable {c c' : ContestedStore} {i : Nat} {new : Entries}

/-! ### The steps of a call -/

/-- **What the next step of a call does.** -/
inductive Takes (c : ContestedStore) (i : Nat) (new : Entries) : ContestedStore → Prop where
  | lock (hp : c.progress i = .waiting) (hfree : c.holder = none) :
      Takes c i new { c.advance i .locked with holder := some i, order := c.order ++ [i] }
  | add (hp : c.progress i = .locked) :
      Takes c i new { c.advance i (.added (Dictionary.merge c.store.entries new)) with
        store := { c.store with entries := Dictionary.merge c.store.entries new } }
  | prepare {snapshot : Entries} (hp : c.progress i = .added snapshot)
      (hmade : (prepare c.tree c.store.path).fault = none) :
      Takes c i new { c.advance i (.prepared snapshot) with
        tree := (FileStore.prepare c.tree c.store.path).tree }
  | write {snapshot : Entries} {tree : FileTree} (hp : c.progress i = .prepared snapshot)
      (hwrite : c.tree.write (temporary c.store.path) (content snapshot) = .ok tree) :
      Takes c i new { c.advance i (.written snapshot) with tree }
  | rename {snapshot : Entries} {tree : FileTree} (hp : c.progress i = .written snapshot)
      (hrename : c.tree.rename (temporary c.store.path) c.store.path = .ok tree) :
      Takes c i new { c.advance i .renamed with tree }
  | release (hp : c.progress i = .renamed) :
      Takes c i new { c.advance i .returned with holder := none }

/-- A call takes one of six steps. -/
theorem takes_of_turn (h : c.turn i = some c') :
    ∃ new, c.calls[i]? = some new ∧ Takes c i new c' := by
  rw [ContestedStore.turn] at h
  cases hi : c.calls[i]? with
  | none =>
    rw [hi] at h
    cases h
  | some new =>
    rw [hi] at h
    refine ⟨new, rfl, ?_⟩
    dsimp only at h
    cases hp : c.progress i with
    | waiting =>
      rw [hp] at h
      obtain ⟨hfree, h⟩ := Option.ite_none_right_eq_some.mp h
      obtain rfl := Option.some.inj h
      exact .lock hp (Option.isNone_iff_eq_none.mp hfree)
    | locked =>
      rw [hp] at h
      obtain rfl := Option.some.inj h
      exact .add hp
    | added snapshot =>
      rw [hp] at h
      obtain ⟨hmade, h⟩ := Option.ite_none_right_eq_some.mp h
      obtain rfl := Option.some.inj h
      exact .prepare hp (Option.isNone_iff_eq_none.mp hmade)
    | prepared snapshot =>
      rw [hp] at h
      dsimp only at h
      cases hwrite : c.tree.write (temporary c.store.path) (content snapshot) with
      | error e =>
        rw [hwrite] at h
        cases h
      | ok tree =>
        rw [hwrite] at h
        obtain rfl := Option.some.inj h
        exact .write hp hwrite
    | written snapshot =>
      rw [hp] at h
      dsimp only at h
      cases hrename : c.tree.rename (temporary c.store.path) c.store.path with
      | error e =>
        rw [hrename] at h
        cases h
      | ok tree =>
        rw [hrename] at h
        obtain rfl := Option.some.inj h
        exact .rename hp hrename
    | renamed =>
      rw [hp] at h
      obtain rfl := Option.some.inj h
      exact .release hp
    | returned =>
      rw [hp] at h
      cases h

/-! ### What is known at every moment -/

/-- **What is known while a call has the lock**: the calls before it are done, and it adds its own
entries first to what the store knows and last to what the file spells. -/
def AtWork (root : FileTree) (m : Entries) (earlier : List Nat) (i : Nat) (c : ContestedStore) :
    Prop :=
  let before := m.mergeAll c.calls earlier
  let after := m.mergeAll c.calls (earlier ++ [i])
  let path := c.store.path
  let prepared := (prepare root path).tree
  match c.progress i with
  | .waiting | .returned => False
  | .locked => c.store.entries = before ∧ OnDisk root path earlier before c.tree
  | .added snapshot =>
    c.store.entries = after ∧ snapshot = after ∧ OnDisk root path earlier before c.tree
  | .prepared snapshot =>
    c.store.entries = after ∧ snapshot = after ∧ OnDisk prepared path earlier before c.tree
  | .written snapshot =>
    c.store.entries = after ∧ snapshot = after ∧
      ∃ tree, OnDisk prepared path earlier before tree ∧
        tree.write (temporary path) (content snapshot) = .ok c.tree
  | .renamed => c.store.entries = after ∧ Steady c.tree path after

/-- **What is known at every moment** of a store that started from a tree. -/
structure Serial (root : FileTree) (s : FileStore) (calls : List Entries) (c : ContestedStore) :
    Prop where
  calls_eq : c.calls = calls
  path_eq : c.store.path = s.path
  nodup : c.order.Nodup
  waiting_iff : ∀ i, c.progress i = .waiting ↔ i ∉ c.order
  lt_length : ∀ i ∈ c.order, i < calls.length
  idle : ∀ i, c.holder ≠ some i → c.progress i = .waiting ∨ c.progress i = .returned
  free : c.holder = none → c.store.entries = s.entries.mergeAll calls c.order ∧
    OnDisk root s.path c.order (s.entries.mergeAll calls c.order) c.tree
  held : ∀ i, c.holder = some i →
    ∃ earlier, c.order = earlier ++ [i] ∧ c.AtWork root s.entries earlier i

namespace Serial

variable {root : FileTree} {s : FileStore} {calls : List Entries}

/-- At first no call has done anything. -/
theorem start (root : FileTree) (s : FileStore) (calls : List Entries) :
    Serial root s calls { store := s, tree := root, calls } where
  calls_eq := rfl
  path_eq := rfl
  nodup := .nil
  waiting_iff i := by simp
  lt_length i hi := by cases hi
  idle i _ := .inl rfl
  free _ := ⟨rfl, .inl ⟨rfl, rfl⟩⟩
  held i hi := by cases hi

/-- A call that has begun and not returned has the lock. -/
theorem holder_eq (h : Serial root s calls c) (hw : c.progress i ≠ .waiting)
    (hr : c.progress i ≠ .returned) : c.holder = some i := by
  by_contra hne
  exact (h.idle i hne).elim hw hr

/-- **What a call at work changes** keeps what is known, as long as it keeps the lock. -/
theorem work (h : Serial root s calls c) {p : Progress} {entries : Entries} {tree : FileTree}
    (hw : c.progress i ≠ .waiting) (hr : c.progress i ≠ .returned) (hp : p ≠ .waiting)
    (hwork : ∀ earlier, c.AtWork root s.entries earlier i →
      AtWork root s.entries earlier i
        { c.advance i p with store := { c.store with entries }, tree }) :
    Serial root s calls { c.advance i p with store := { c.store with entries }, tree } := by
  have hheld := h.holder_eq hw hr
  obtain ⟨earlier, horder, hat⟩ := h.held i hheld
  have hmem : i ∈ c.order := by simp [horder]
  refine ⟨h.calls_eq, h.path_eq, h.nodup, fun j => ?_, h.lt_length, fun j hj => ?_, fun hfree => ?_,
    fun j hj => ?_⟩
  · by_cases hji : j = i
    · subst hji
      simp [advance, hp, hmem]
    · simpa [advance, hji] using h.waiting_iff j
  · have hji : j ≠ i := by
      rintro rfl
      exact hj hheld
    simpa [advance, hji] using h.idle j hj
  · rw [show c.holder = none from hfree] at hheld
    cases hheld
  · obtain rfl : i = j := Option.some.inj (hheld.symm.trans hj)
    exact ⟨earlier, horder, hwork earlier hat⟩

/-- A call that takes the lock finds all calls before it done. -/
theorem lock (h : Serial root s calls c) (hnew : c.calls[i]? = some new)
    (hp : c.progress i = .waiting) (hfree : c.holder = none) :
    Serial root s calls
      { c.advance i .locked with holder := some i, order := c.order ++ [i] } := by
  have hcalls := h.calls_eq
  have hpath := h.path_eq
  have hout : i ∉ c.order := (h.waiting_iff i).mp hp
  have hlt : i < calls.length := hcalls ▸ (List.getElem?_eq_some_iff.mp hnew).1
  refine ⟨hcalls, hpath, ?_, fun j => ?_, fun j hj => ?_, fun j hj => ?_, by simp, fun j hj => ?_⟩
  · refine List.nodup_append.mpr
      ⟨h.nodup, List.pairwise_singleton _ _, fun a ha b hb hab => hout ?_⟩
    rwa [← List.mem_singleton.mp hb, ← hab]
  · by_cases hji : j = i
    · subst hji
      simp [advance]
    · simpa [advance, hji] using h.waiting_iff j
  · rcases List.mem_append.mp hj with hj | hj
    · exact h.lt_length j hj
    · rwa [List.mem_singleton.mp hj]
  · have hji : j ≠ i := by
      rintro rfl
      exact hj rfl
    simpa [advance, hji] using h.idle j (by simp [hfree])
  · obtain rfl : i = j := Option.some.inj hj
    refine ⟨c.order, rfl, ?_⟩
    simp only [AtWork, advance, Function.update_self, hcalls, hpath]
    exact h.free hfree

/-- A call that lets go of the lock is done. -/
theorem release (h : Serial root s calls c) (hp : c.progress i = .renamed) :
    Serial root s calls { c.advance i .returned with holder := none } := by
  have hheld := h.holder_eq (i := i) (by simp [hp]) (by simp [hp])
  obtain ⟨earlier, horder, hat⟩ := h.held i hheld
  simp only [AtWork, hp, ← horder, h.calls_eq, h.path_eq] at hat
  obtain ⟨hentries, hsteady⟩ := hat
  have hmem : i ∈ c.order := by simp [horder]
  refine ⟨h.calls_eq, h.path_eq, h.nodup, fun j => ?_, h.lt_length, fun j _ => ?_,
    fun _ => ⟨hentries, .inr hsteady⟩, by simp⟩
  · by_cases hji : j = i
    · subst hji
      simp [advance, hmem]
    · simpa [advance, hji] using h.waiting_iff j
  · by_cases hji : j = i
    · subst hji
      simp [advance]
    · simpa [advance, hji] using h.idle j (by simp [hheld, Ne.symm hji])

/-- **Every step keeps what is known.** -/
theorem turn (h : Serial root s calls c) (hsorted : Dictionary.Sorted s.entries)
    (hturn : c.turn i = some c') : Serial root s calls c' := by
  obtain ⟨new, hnew, hstep⟩ := takes_of_turn hturn
  cases hstep with
  | lock hp hfree => exact h.lock hnew hp hfree
  | add hp =>
    refine h.work (by simp [hp]) (by simp [hp]) (by simp) fun earlier hat => ?_
    simp only [AtWork, hp] at hat
    obtain ⟨hentries, hdisk⟩ := hat
    simp only [AtWork, advance, Function.update_self]
    have hafter : Dictionary.merge c.store.entries new =
        s.entries.mergeAll c.calls (earlier ++ [i]) := by
      rw [hentries, Entries.mergeAll_concat _ hnew]
    exact ⟨hafter, hafter, hdisk⟩
  | prepare hp hmade =>
    refine h.work (by simp [hp]) (by simp [hp]) (by simp) fun earlier hat => ?_
    simp only [AtWork, hp] at hat
    obtain ⟨hentries, hsnapshot, hdisk⟩ := hat
    simp only [AtWork, advance, Function.update_self]
    exact ⟨hentries, hsnapshot, hdisk.prepare⟩
  | write hp hwrite =>
    refine h.work (by simp [hp]) (by simp [hp]) (by simp) fun earlier hat => ?_
    simp only [AtWork, hp] at hat
    obtain ⟨hentries, hsnapshot, hdisk⟩ := hat
    simp only [AtWork, advance, Function.update_self]
    exact ⟨hentries, hsnapshot, c.tree, hdisk, hwrite⟩
  | rename hp hrename =>
    refine h.work (by simp [hp]) (by simp [hp]) (by simp) fun earlier hat => ?_
    simp only [AtWork, hp] at hat
    obtain ⟨hentries, rfl, tree, -, hwrite⟩ := hat
    simp only [AtWork, advance, Function.update_self]
    refine ⟨hentries, fun t ht => ?_⟩
    rw [FileStore.load_of_rename hwrite hrename ht,
      FileStore.decode_content (Entries.sorted_mergeAll hsorted _ _)]
  | release hp => exact h.release hp

/-- **Whatever steps are taken**, the same is known. -/
theorem follow (h : Serial root s calls c) (hsorted : Dictionary.Sorted s.entries)
    {turns : List Nat} (hfollow : c.follow turns = some c') : Serial root s calls c' := by
  induction turns generalizing c with
  | nil =>
    obtain rfl := Option.some.inj hfollow
    exact h
  | cons i turns ih =>
    rw [ContestedStore.follow, List.foldlM_cons] at hfollow
    obtain ⟨next, hturn, hrest⟩ := Option.bind_eq_some_iff.mp hfollow
    exact ih (h.turn hsorted hturn) hrest

/-! ### What follows -/

/-- Whatever returned was done before the call at work. -/
theorem mem_order_of_returned (h : Serial root s calls c) (hr : c.progress i = .returned) :
    i ∈ c.order := by
  by_contra hout
  rw [(h.waiting_iff i).mpr hout] at hr
  cases hr

/-- **The file spells what some calls wrote**, from the first on, all that have returned among
them. -/
theorem exists_decode (h : Serial root s calls c) (hload : load root s.path = .ok s.entries)
    (hsorted : Dictionary.Sorted s.entries) (hfile : BringsNoFile root s.path) {bytes : Bytes}
    (hread : c.tree.read s.path = .ok bytes) :
    ∃ done, done <+: c.order ∧ (∀ i, c.progress i = .returned → i ∈ done) ∧
      FileStore.decode bytes = .ok (s.entries.mergeAll calls done) := by
  have hroot : ∀ {done : List Nat}, done = [] → ∀ bytes, root.read s.path = .ok bytes →
      FileStore.decode bytes = .ok (s.entries.mergeAll calls done) := by
    rintro done rfl bytes hbytes
    exact FileStore.decode_of_load hload hbytes
  have hprepared : ∀ {done : List Nat}, done = [] → ∀ bytes,
      (prepare root s.path).tree.read s.path = .ok bytes →
      FileStore.decode bytes = .ok (s.entries.mergeAll calls done) :=
    fun hdone bytes hbytes => hroot hdone bytes (hfile bytes hbytes)
  cases hholder : c.holder with
  | none =>
    exact ⟨c.order, List.prefix_refl _, fun i => h.mem_order_of_returned,
      (h.free hholder).2.decode hroot hread⟩
  | some i =>
    obtain ⟨earlier, horder, hat⟩ := h.held i hholder
    have hbefore : earlier <+: c.order := horder ▸ List.prefix_append _ _
    -- The call at work has not returned, so all that have are before it.
    have hreturned : c.progress i ≠ .returned → ∀ j, c.progress j = .returned → j ∈ earlier := by
      intro hi j hj
      have hmem := h.mem_order_of_returned hj
      rw [horder] at hmem
      refine (List.mem_append.mp hmem).resolve_right fun hlast => hi ?_
      rw [← List.mem_singleton.mp hlast, hj]
    rw [AtWork, h.calls_eq, h.path_eq] at hat
    cases hp : c.progress i with
    | waiting => simp [hp] at hat
    | returned => simp [hp] at hat
    | locked =>
      simp only [hp] at hat
      exact ⟨earlier, hbefore, hreturned (by simp [hp]), hat.2.decode hroot hread⟩
    | added snapshot =>
      simp only [hp] at hat
      exact ⟨earlier, hbefore, hreturned (by simp [hp]), hat.2.2.decode hroot hread⟩
    | prepared snapshot =>
      simp only [hp] at hat
      exact ⟨earlier, hbefore, hreturned (by simp [hp]), hat.2.2.decode hprepared hread⟩
    | written snapshot =>
      simp only [hp] at hat
      obtain ⟨-, rfl, tree, hdisk, hwrite⟩ := hat
      rcases FileTree.read_of_write hwrite hread with rfl | hread
      · rw [← horder]
        exact ⟨c.order, List.prefix_refl _, fun i => h.mem_order_of_returned,
          FileStore.decode_content (Entries.sorted_mergeAll hsorted _ _)⟩
      · exact ⟨earlier, hbefore, hreturned (by simp [hp]), hdisk.decode hprepared hread⟩
    | renamed =>
      simp only [hp, ← horder] at hat
      exact ⟨c.order, List.prefix_refl _, fun i => h.mem_order_of_returned,
        FileStore.decode_of_load (hat.2 _ (.refl _)) hread⟩

/-- When all calls have returned, each took the lock once. -/
theorem perm_of_done (h : Serial root s calls c) (hdone : c.Done) :
    c.order.Perm (List.range calls.length) := by
  refine (List.perm_ext_iff_of_nodup h.nodup List.nodup_range).mpr fun i => ?_
  rw [List.mem_range]
  exact ⟨h.lt_length i, fun hi => h.mem_order_of_returned (hdone i (by rwa [h.calls_eq]))⟩

/-- When all calls have returned, no call has the lock. -/
theorem holder_of_done (h : Serial root s calls c) (hdone : c.Done) : c.holder = none := by
  by_contra hne
  obtain ⟨i, hi⟩ := Option.ne_none_iff_exists'.mp hne
  obtain ⟨earlier, horder, hat⟩ := h.held i hi
  have hlt := h.lt_length i (by simp [horder])
  rw [AtWork, hdone i (by rwa [h.calls_eq])] at hat
  exact hat

/-- **When all calls have returned** the store knows, and its file spells, what they wrote one whole
call after another. -/
theorem load_of_done (h : Serial root s calls c) (hload : load root s.path = .ok s.entries)
    (hdone : c.Done) : c.store.entries = s.entries.mergeAll calls c.order ∧
      load c.tree s.path = .ok (s.entries.mergeAll calls c.order) := by
  obtain ⟨hentries, hdisk⟩ := h.free (h.holder_of_done hdone)
  refine ⟨hentries, ?_⟩
  obtain ⟨horder, htree⟩ | hsteady := hdisk
  · rw [horder, htree]
    exact hload
  · exact hsteady _ (.refl _)

end Serial

/-! ### Concurrent writes -/

/-- **The steps of one call by itself** do what a write does: they can all be taken if that
succeeds, and leave the store and the tree that it leaves. -/
theorem follow_alone {i : Nat} (hnew : c.calls[i]? = some new) (hwaits : c.progress i = .waiting)
    (hfree : c.holder = none) :
    c.follow (List.replicate 6 i) =
      if (FileStore.set c.tree c.store new).error.isNone then
        some { c.advance i .returned with
          store := (FileStore.set c.tree c.store new).store
          tree := (FileStore.set c.tree c.store new).tree
          order := c.order ++ [i] }
      else none := by
  let entries := Dictionary.merge c.store.entries new
  let store : FileStore := { c.store with entries }
  let state (p : Progress) (store : FileStore) (tree : FileTree) : ContestedStore :=
    { c.advance i p with store, tree, holder := some i, order := c.order ++ [i] }
  have hlock : c.turn i = some (state .locked c.store c.tree) := by
    simp [turn, hnew, hwaits, hfree, advance, state]
  have hadd :
      (state .locked c.store c.tree).turn i = some (state (.added entries) store c.tree) := by
    simp [turn, hnew, advance, state, entries, store]
  have hprepare : (state (.added entries) store c.tree).turn i =
      if (prepare c.tree c.store.path).fault.isNone then
        some (state (.prepared entries) store (prepare c.tree c.store.path).tree)
      else none := by
    simp [turn, hnew, advance, state, store]
  have hwrite : ∀ tree, (state (.prepared entries) store tree).turn i =
      (tree.write (temporary c.store.path) (content entries)).toOption.map
        (state (.written entries) store ·) := by
    intro tree
    cases h : tree.write (temporary c.store.path) (content entries) <;>
      simp [turn, hnew, advance, state, store, h, Except.toOption]
  have hrename : ∀ tree, (state (.written entries) store tree).turn i =
      (tree.rename (temporary c.store.path) c.store.path).toOption.map
        (state .renamed store ·) := by
    intro tree
    cases h : tree.rename (temporary c.store.path) c.store.path <;>
      simp [turn, hnew, advance, state, store, h, Except.toOption]
  have hrelease : ∀ tree, (state .renamed store tree).turn i =
      some { c.advance i .returned with store, tree, order := c.order ++ [i] } := by
    intro tree
    simp [turn, hnew, advance, state, hfree]
  have hset : FileStore.set c.tree c.store new =
      ⟨store, (FileStore.save c.tree c.store.path entries).tree,
        (FileStore.save c.tree c.store.path entries).fault.map .file⟩ := rfl
  rw [hset, FileStore.save]
  simp only [follow, List.replicate, List.foldlM_cons, List.foldlM_nil, Option.bind_eq_bind,
    Option.pure_def, hlock, hadd, hprepare, Option.bind_some]
  cases hmade : (prepare c.tree c.store.path).fault with
  | some fault => simp [hmade]
  | none =>
    cases hw : (prepare c.tree c.store.path).tree.write (temporary c.store.path)
        (content entries) with
    | error fault => simp [hwrite, hw, Except.toOption]
    | ok tree =>
      cases hr : tree.rename (temporary c.store.path) c.store.path with
      | error fault => simp [hwrite, hw, hrename, hr, Except.toOption]
      | ok tree => simp [hwrite, hw, hrename, hr, hrelease, Except.toOption]

/-- **Concurrent writes to a file store are serialized without loss**, in the order in which they
take the lock. Whatever steps they have taken in whatever order, the file, if there is one, spells
what the store held when it started and what the first calls wrote, those that have returned among
them; making the directory brings no other file to the path. When all calls have returned, the
store knows and the file spells what all of them wrote, one whole call after another, and what a
call wrote to a key is there unless a later call wrote to it. -/
theorem writes_one_after_another {root : FileTree} {s₀ s : FileStore} {calls : List Entries}
    {turns : List Nat} (hstart : FileStore.start root s₀ = .ok s)
    (hfollow : follow { store := s, tree := root, calls } turns = some c) :
    (BringsNoFile root s.path → ∀ bytes, c.tree.read s.path = .ok bytes →
      ∃ done, done <+: c.order ∧ (∀ i, c.progress i = .returned → i ∈ done) ∧
        FileStore.decode bytes = .ok (s.entries.mergeAll calls done)) ∧
    (c.Done →
      c.order.Perm (List.range calls.length) ∧
      c.store.entries = s.entries.mergeAll calls c.order ∧
      load c.tree s.path = .ok (s.entries.mergeAll calls c.order) ∧
      ((∀ new ∈ calls, Dictionary.Sorted new) →
        ∀ earlier i later new k v, c.order = earlier ++ i :: later → calls[i]? = some new →
          Dictionary.get? k new = some v →
          (∀ j ∈ later, ∀ new, calls[j]? = some new → Dictionary.get? k new = none) →
          Dictionary.get? k c.store.entries = some v)) := by
  obtain ⟨hpath, hload⟩ : s.path = s₀.path ∧ load root s.path = .ok s.entries := by
    rw [FileStore.start] at hstart
    cases hload : load root s₀.path with
    | error e =>
      rw [hload] at hstart
      cases hstart
    | ok entries =>
      rw [hload] at hstart
      obtain rfl := Except.ok.inj hstart
      exact ⟨rfl, hload⟩
  have hsorted := FileStore.sorted_load hload
  have hserial := (Serial.start root s calls).follow hsorted hfollow
  refine ⟨fun hfile bytes => hserial.exists_decode hload hsorted hfile, fun hdone => ?_⟩
  obtain ⟨hentries, hdisk⟩ := hserial.load_of_done hload hdone
  refine ⟨hserial.perm_of_done hdone, hentries, hdisk, ?_⟩
  intro hcalls earlier i later new k v horder hnew hv hlater
  rw [hentries, horder]
  exact Entries.get?_mergeAll hcalls hnew hv hlater

/-- The second of two calls takes the lock first. -/
theorem writes_one_after_another_of_two :
    let s : FileStore := { path := ⟨"data/offsets.json"⟩ }
    let calls : List Entries := [[([1], [2])], [([1], [3]), ([4], [5])]]
    let turns := [1, 1, 1, 1, 1, 1, 0, 0, 0, 0, 0, 0]
    ∃ c, FileStore.start [] s = .ok s ∧ BringsNoFile [] s.path ∧
      (∀ new ∈ calls, Dictionary.Sorted new) ∧
      follow { store := s, tree := [], calls } turns = some c ∧ c.Done ∧
      c.order = [1, 0] ∧ load c.tree s.path = .ok [([1], [2]), ([4], [5])] ∧
      Dictionary.get? [4] c.store.entries = some [5] ∧
      ∀ bytes, c.tree.read s.path = .ok bytes → ∃ done, done <+: c.order ∧
        FileStore.decode bytes = .ok (s.entries.mergeAll calls done) := by
  intro s calls turns
  have hstart : FileStore.start [] s = .ok s := by decide +kernel
  have hfile : BringsNoFile [] s.path :=
    FileStore.NamesFile.bringsNoFile ⟨by decide, by decide +kernel⟩
  have hcalls : ∀ new ∈ calls, Dictionary.Sorted new := by
    have hlt : ([1] : Bytes) < [4] := by decide
    simpa [calls, Dictionary.Sorted] using hlt
  have heval : (follow { store := s, tree := [], calls } turns).map
      (fun c => (c.calls.length, c.progress 0, c.progress 1, c.order)) =
        some (2, .returned, .returned, [1, 0]) := by decide +kernel
  obtain ⟨c, hfollow, hc⟩ := Option.map_eq_some_iff.mp heval
  simp only [Prod.mk.injEq] at hc
  obtain ⟨hlength, h₀, h₁, horder⟩ := hc
  have hdone : c.Done := by
    intro i hi
    obtain rfl | rfl : i = 0 ∨ i = 1 := by omega
    · exact h₀
    · exact h₁
  obtain ⟨hdecode, hall⟩ := writes_one_after_another hstart hfollow
  obtain ⟨-, -, hload, hkeys⟩ := hall hdone
  refine ⟨c, hstart, hfile, hcalls, hfollow, hdone, horder, ?_, ?_, fun bytes hread => ?_⟩
  · rw [hload, horder]
    decide +kernel
  · exact hkeys hcalls [] 1 [0] _ [4] [5] horder rfl rfl (by decide)
  · obtain ⟨done, hfirst, -, hdecode⟩ := hdecode hfile bytes hread
    exact ⟨done, hfirst, hdecode⟩

/-- **A file that the start did not find.** The path `b/../f` leads nowhere as long as `b` is
missing. Once the first call has made it, the path leads to the file `f`, whose entries the store
does not know. -/
theorem not_forall_decode :
    ¬ ∀ (root : FileTree) (s₀ s : FileStore) (calls : List Entries) (turns rest : List Nat)
      (c d : ContestedStore), FileStore.start root s₀ = .ok s →
      follow { store := s, tree := root, calls } turns = some c → c.follow rest = some d → d.Done →
      ∀ bytes, c.tree.read s.path = .ok bytes →
        ∃ done, done <+: c.order ∧
          FileStore.decode bytes = .ok (s.entries.mergeAll calls done) := by
  intro hall
  let root : FileTree := [(["f"], .file (content [([1], [2])]))]
  let s : FileStore := { path := ⟨"b/../f"⟩ }
  let calls : List Entries := [[([3], [4])]]
  have hfirst : (follow { store := s, tree := root, calls } [0, 0, 0]).map
      (fun c => (c.order, c.tree.read s.path, (c.follow [0, 0, 0]).map fun d =>
        (d.calls.length, d.progress 0))) =
        some ([0], .ok (content [([1], [2])]), some (1, .returned)) := by decide +kernel
  obtain ⟨c, hc, hfirst⟩ := Option.map_eq_some_iff.mp hfirst
  simp only [Prod.mk.injEq] at hfirst
  obtain ⟨horder, hread, hlast⟩ := hfirst
  obtain ⟨d, hd, hlast⟩ := Option.map_eq_some_iff.mp hlast
  simp only [Prod.mk.injEq] at hlast
  have hdone : d.Done := by
    intro i hi
    obtain rfl : i = 0 := by omega
    exact hlast.2
  obtain ⟨done, hdone, hdecode⟩ :=
    hall root s s calls [0, 0, 0] [0, 0, 0] c d (by decide +kernel) hc hd hdone _ hread
  rw [horder] at hdone
  have hempty : done = [] ∨ done = [0] := by
    simpa [List.prefix_cons_iff] using hdone
  have hneither : FileStore.decode (content [([1], [2])]) = .ok [([1], [2])] := by decide +kernel
  rw [hneither] at hdecode
  have heq := Except.ok.inj hdecode
  rcases hempty with rfl | rfl <;> revert heq <;> decide +kernel

end ContestedStore

end ChangeCapture
