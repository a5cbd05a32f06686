import ChangeCapture.Storage.FileStore
import Mathlib.Logic.Function.Basic

/-!
# Writes to a file store at the same time

Many calls may write to one file store at the same time. A call takes the lock of the store, adds
its entries to what the store knows, makes the directory, writes the temporary sibling, gives it the
path, and lets go of the lock. Any call may take its next step at any time, unless it is to take the
lock and another has it.

## Main definitions

* `FileStore.Progress`: how far a call has come.
* `ContestedStore`: a file store, the tree with its file, and the calls.
* `ContestedStore.turn`, `ContestedStore.follow`: the next step of a call, and the steps of many
  calls.
* `Entries.mergeAll`: the entries of calls one whole call after another.
-/

namespace ChangeCapture

namespace Entries

/-- **The entries of calls over some others**, one whole call after another in an order. -/
def mergeAll (entries : Entries) (calls : List Entries) (order : List Nat) : Entries :=
  (order.filterMap (calls[·]?)).foldl Dictionary.merge entries

end Entries

/-- **How far a call to write has come.** What it writes to disk is fixed when it adds its
entries. -/
inductive FileStore.Progress where
  | waiting
  /-- It has the lock. -/
  | locked
  /-- The store knows its entries. -/
  | added (snapshot : Entries)
  /-- The directory is there. -/
  | prepared (snapshot : Entries)
  /-- The temporary sibling is written. -/
  | written (snapshot : Entries)
  /-- The sibling has the path. -/
  | renamed
  /-- It has let go of the lock. -/
  | returned
  deriving DecidableEq, Repr

/-- **A file store that is written to by many calls at the same time.** -/
structure ContestedStore where
  store : FileStore
  tree : FileTree
  /-- The entries of each call. -/
  calls : List Entries
  progress : Nat → FileStore.Progress := fun _ => .waiting
  /-- The call that has the lock. -/
  holder : Option Nat := none
  /-- The calls that took the lock, one after the other. -/
  order : List Nat := []

namespace ContestedStore

/-- One call comes further. -/
def advance (c : ContestedStore) (i : Nat) (p : FileStore.Progress) : ContestedStore :=
  { c with progress := Function.update c.progress i p }

/-- **The next step of a call**, if nothing stops it: the lock is with another call, a step on disk
fails, or the call has returned. -/
def turn (c : ContestedStore) (i : Nat) : Option ContestedStore :=
  match c.calls[i]? with
  | none => none
  | some new =>
    match c.progress i with
    | .waiting =>
      if c.holder.isNone then
        some { c.advance i .locked with holder := some i, order := c.order ++ [i] }
      else none
    | .locked =>
      let entries := Dictionary.merge c.store.entries new
      some { c.advance i (.added entries) with store := { c.store with entries } }
    | .added snapshot =>
      let made := FileStore.prepare c.tree c.store.path
      if made.fault.isNone then some { c.advance i (.prepared snapshot) with tree := made.tree }
      else none
    | .prepared snapshot =>
      match c.tree.write (FileStore.temporary c.store.path) (FileStore.content snapshot) with
      | .ok tree => some { c.advance i (.written snapshot) with tree }
      | .error _ => none
    | .written _ =>
      match c.tree.rename (FileStore.temporary c.store.path) c.store.path with
      | .ok tree => some { c.advance i .renamed with tree }
      | .error _ => none
    | .renamed => some { c.advance i .returned with holder := none }
    | .returned => none

/-- **The steps of many calls**, one after the other. -/
def follow (c : ContestedStore) (turns : List Nat) : Option ContestedStore :=
  turns.foldlM turn c

/-- All calls have returned. -/
def Done (c : ContestedStore) : Prop :=
  ∀ i < c.calls.length, c.progress i = .returned

end ContestedStore

end ChangeCapture
