import ChangeCapture.Proofs.Storage.Store

/-!
# Stores that are opened again

A store that is asked to write and to look up may be given up between two calls for a new one at the
same path. A store in memory has no path and stays. What a store in a file knows is what its file
spells, from its start on and after every write that succeeds, so giving it up loses nothing: it
answers as a store in memory would.

## Main definitions

* `StoreCall`, `StoreReply`, `Store.call`, `Store.replies`: calls to a store and its replies.
* `Store.anew`: a new store in place of another.
* `Store.IsSaved`: the file of a store spells what the store knows.

## Main results

* `Store.IsSaved.start_anew` — a new store in place of a saved one starts as that one.
* `Store.replies_eq_memory` — a store in a file replies as a store in memory does, however often it
  is opened again.
-/

namespace ChangeCapture

/-! ### Calls -/

/-- What a store is asked. -/
inductive StoreCall where
  | set (new : Entries)
  | get (keys : List Bytes)
  /-- The store is given up for a new one, which is started. -/
  | reopen
  deriving DecidableEq, Repr

/-- What a store replies. -/
inductive StoreReply where
  | written (error : Option OffsetError)
  | found (entries : Entries)
  | reopened (error : Option OffsetError)
  deriving DecidableEq, Repr

namespace Store

/-- A new store in place of another. In a file it knows nothing before it is started. -/
def anew : Store → Store
  | .memory entries => .memory entries
  | .file store tree => .file { path := store.path } tree

/-- What a call leaves behind, and the reply. -/
def call (st : Store) : StoreCall → Store × StoreReply
  | .set new => ((st.set new).1, .written (st.set new).2)
  | .get keys => (st, .found (st.get keys))
  | .reopen =>
    match st.anew.start with
    | .ok st' => (st', .reopened none)
    | .error e => (st.anew, .reopened (some e))

/-- The replies to calls that follow each other. -/
def replies (st : Store) : List StoreCall → List StoreReply
  | [] => []
  | c :: calls => (st.call c).2 :: (st.call c).1.replies calls

/-! ### Saved stores -/

/-- **The file of a store spells what the store knows.** -/
def IsSaved : Store → Prop
  | .memory _ => True
  | .file store tree =>
    Dictionary.Sorted store.entries ∧ FileStore.load tree store.path = .ok store.entries

variable {st st' : Store}

/-- A start leaves a store that is saved. -/
theorem isSaved_of_start (h : st.start = .ok st') : st'.IsSaved := by
  cases st with
  | memory entries =>
    obtain rfl := Except.ok.inj h
    trivial
  | file store tree =>
    obtain ⟨store', hstart, rfl⟩ := exists_of_file_start h
    obtain ⟨entries, hload, rfl⟩ := FileStore.start_eq_ok.mp hstart
    exact ⟨FileStore.sorted_load hload, hload⟩

/-- A write that succeeds leaves a store that is saved. -/
theorem IsSaved.set (h : st.IsSaved) {new : Entries} (hok : (st.set new).2 = none) :
    (st.set new).1.IsSaved := by
  cases st with
  | memory entries => trivial
  | file store tree =>
    have hsorted := Dictionary.Sorted.merge h.1 new
    exact ⟨hsorted, FileStore.load_save hsorted (Option.map_eq_none_iff.mp hok)⟩

/-- **A new store in place of a saved one starts as that one.** -/
theorem IsSaved.start_anew (h : st.IsSaved) : st.anew.start = .ok st := by
  cases st with
  | memory entries => rfl
  | file store tree =>
    have hload : FileStore.load tree store.path = .ok store.entries := h.2
    rw [anew, start, FileStore.start]
    dsimp only
    rw [hload]

/-- One call of a saved store: unless a write fails the store stays saved, and a store in memory
that knows the same replies the same and goes on to know the same. -/
theorem IsSaved.call (h : st.IsSaved) {c : StoreCall}
    (hok : ∀ e, (st.call c).2 ≠ .written (some e)) :
    (st.call c).1.IsSaved ∧
      (memory st.entries).call c = (.memory (st.call c).1.entries, (st.call c).2) := by
  cases c with
  | set new =>
    have hnone : (st.set new).2 = none :=
      Option.eq_none_iff_forall_ne_some.mpr fun e he => hok e (congrArg StoreReply.written he)
    refine ⟨h.set hnone, ?_⟩
    rw [Store.call, Store.call, entries_set, hnone]
    rfl
  | get keys => exact ⟨h, rfl⟩
  | reopen =>
    rw [Store.call, h.start_anew]
    exact ⟨h, rfl⟩

/-- Saved stores reply as stores in memory that know the same. -/
theorem IsSaved.replies_eq (h : st.IsSaved) {calls : List StoreCall}
    (hok : ∀ e, .written (some e) ∉ st.replies calls) :
    st.replies calls = (memory st.entries).replies calls := by
  induction calls generalizing st with
  | nil => rfl
  | cons c calls ih =>
    rw [replies] at hok
    obtain ⟨hsaved, hcall⟩ := h.call (c := c) fun e he =>
      hok e (he ▸ List.mem_cons_self)
    rw [replies, replies, hcall, ih hsaved fun e he => hok e (List.mem_cons_of_mem _ he)]

/-- **A store in a file replies as a store in memory.** It is started once, and may be given up for
a new one between any two calls: as long as its writes succeed, it replies to every call what a
store in memory replies that knew the same at the start, and each new store starts. In particular
what was saved is loaded. -/
theorem replies_eq_memory {store : FileStore} {tree : FileTree} {st : Store}
    (hstart : (Store.file store tree).start = .ok st) (calls : List StoreCall)
    (hok : ∀ e, .written (some e) ∉ st.replies calls) :
    st.replies calls = (memory st.entries).replies calls ∧
      ∀ (t : FileTree) (path : FilePath) (pairs : List (Bytes × Bytes)),
        (FileStore.save t path (Dictionary.ofList pairs)).fault = none →
        FileStore.load (FileStore.save t path (Dictionary.ofList pairs)).tree path =
          .ok (Dictionary.ofList pairs) := by
  refine ⟨(isSaved_of_start hstart).replies_eq hok, fun t path pairs hsave => ?_⟩
  have hnil : Dictionary.Sorted ([] : Entries) := trivial
  exact FileStore.load_save (hnil.merge pairs) hsave

/-- A store is written, given up for a new one, and asked: it finds the empty key and the other one,
as a store in memory does. -/
theorem replies_eq_memory_reopened :
    let store : FileStore := { path := ⟨"offsets.json"⟩ }
    let calls : List StoreCall :=
      [.get [[1]], .set [([], [7, 255]), ([1], [])], .reopen, .set [([1], [2])], .reopen,
        .get [[], [1], [3]]]
    (Store.file store []).start = .ok (.file store []) ∧
      (Store.file store []).replies calls = (memory []).replies calls ∧
      (memory []).replies calls =
        [.found [], .written none, .reopened none, .written none, .reopened none,
          .found [([], [7, 255]), ([1], [2])]] ∧
      FileStore.load (FileStore.save [] ⟨"offsets.json"⟩ []).tree ⟨"offsets.json"⟩ = .ok [] := by
  intro store calls
  have hstart : (Store.file store []).start = .ok (.file store []) := by decide +kernel
  have hreplies : (Store.file store []).replies calls =
      [.found [], .written none, .reopened none, .written none, .reopened none,
        .found [([], [7, 255]), ([1], [2])]] := by decide +kernel
  have hok : ∀ e, .written (some e) ∉ (Store.file store []).replies calls := by
    intro e
    rw [hreplies]
    simp
  obtain ⟨hsame, hload⟩ := replies_eq_memory hstart calls hok
  exact ⟨hstart, hsame, hsame ▸ hreplies, hload [] ⟨"offsets.json"⟩ [] (by decide +kernel)⟩

end Store

end ChangeCapture
