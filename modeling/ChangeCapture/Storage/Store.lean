import ChangeCapture.Storage.FileStore

/-!
# Offset stores

An offset store is kept in memory or in a file.

## Main definitions

* `Store`, `Store.start`, `Store.get`, `Store.set`.
-/

namespace ChangeCapture

/-- An offset store, and the tree that holds its file. -/
inductive Store where
  | memory (entries : Entries)
  | file (store : FileStore) (tree : FileTree)
  deriving DecidableEq, Repr

namespace Store

/-- The store in memory that holds nothing. -/
def empty : Store := .memory []

/-- What a store holds. -/
def entries : Store → Entries
  | .memory entries => entries
  | .file store _ => store.entries

/-- The files around a store. -/
def tree : Store → FileTree
  | .memory _ => []
  | .file _ tree => tree

/-- Makes a store ready. -/
def start : Store → Except OffsetError Store
  | .memory entries => .ok (.memory entries)
  | .file store tree =>
    match store.start tree with
    | .ok store => .ok (.file store tree)
    | .error e => .error e

/-- The entries under some keys. -/
def get (s : Store) (keys : List Bytes) : Entries :=
  s.entries.select keys

/-- Adds entries, and says what went wrong. -/
def set (new : Entries) : Store → Store × Option OffsetError
  | .memory entries => (.memory (Dictionary.merge entries new), none)
  | .file store tree =>
    let written := store.set tree new
    (.file written.store written.tree, written.error)

end Store

end ChangeCapture
