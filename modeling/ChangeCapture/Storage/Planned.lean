import ChangeCapture.Storage.Store

/-!
# Stores whose calls go as planned

To the library a store is a service: a call may succeed, fail, take its time, never come back, or
bring down who made it. A plan says for each call how it goes.

## Main definitions

* `Outcome`, `StorePlan`, `PlannedStore`.
* `PlannedStore.callStart`, `PlannedStore.callGet`, `PlannedStore.callSet`: a call and how it goes.
-/

namespace ChangeCapture

/-- How a call goes. -/
inductive Outcome where
  /-- It fails, or acts and comes back, after a delay. -/
  | answers (delay : Nat) (error : Option OffsetError)
  /-- It never acts and never comes back. -/
  | hangs
  /-- It acts and never comes back. -/
  | lands
  | panics
  deriving DecidableEq, Repr

/-- A call acts and comes back at once. -/
def Outcome.succeeds : Outcome := .answers 0 none

/-- How each call goes, by its number among the calls of its kind. -/
structure StorePlan where
  starts : Nat → Outcome := fun _ => .succeeds
  gets : Nat → Outcome := fun _ => .succeeds
  sets : Nat → Outcome := fun _ => .succeeds

/-- A store, the plan of its calls, and the calls made so far. -/
structure PlannedStore where
  store : Store := .empty
  plan : StorePlan := {}
  startCalls : Nat := 0
  getCalls : Nat := 0
  setCalls : Nat := 0

namespace PlannedStore

/-- How the next start goes. -/
def callStart (s : PlannedStore) : Outcome × PlannedStore :=
  (s.plan.starts s.startCalls, { s with startCalls := s.startCalls + 1 })

/-- How the next look-up goes. -/
def callGet (s : PlannedStore) : Outcome × PlannedStore :=
  (s.plan.gets s.getCalls, { s with getCalls := s.getCalls + 1 })

/-- How the next write goes. -/
def callSet (s : PlannedStore) : Outcome × PlannedStore :=
  (s.plan.sets s.setCalls, { s with setCalls := s.setCalls + 1 })

/-- The store makes itself ready. -/
def start (s : PlannedStore) : Except OffsetError PlannedStore :=
  match s.store.start with
  | .ok store => .ok { s with store }
  | .error e => .error e

/-- The store adds entries. -/
def set (entries : Entries) (s : PlannedStore) : PlannedStore × Option OffsetError :=
  let (store, error) := s.store.set entries
  ({ s with store }, error)

end PlannedStore

/-- A call that has not come back. -/
structure PendingCall where
  /-- When it comes back, if ever. -/
  until? : Option Nat
  /-- With which error, instead of acting. -/
  error : Option OffsetError := none
  deriving DecidableEq, Repr

/-- Whether a pending call comes back by now. -/
def PendingCall.isBack (now : Nat) (call : PendingCall) : Bool :=
  match call.until? with
  | some instant => instant ≤ now
  | none => false

/-- The pending call of an outcome, unless it brings down the caller. -/
def Outcome.pending? (now : Nat) : Outcome → Option PendingCall
  | .answers delay error => some ⟨some (now + delay), error⟩
  | .hangs | .lands => some ⟨none, none⟩
  | .panics => none

end ChangeCapture
