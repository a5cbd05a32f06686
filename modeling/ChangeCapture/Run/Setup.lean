import ChangeCapture.Event
import ChangeCapture.Offsets.Key
import ChangeCapture.Policy
import ChangeCapture.Registry

/-!
# What a host sets up

A connector is known by how its hooks answer, a consumer by how it reacts to each record. Both are
counted over all runs of the host, so that a later run may meet other answers than an earlier one.

## Main definitions

* `Connector`, `Verdict`, `Reaction`, `Setup`.
-/

namespace ChangeCapture

/-- How the hooks of a connector and its task answer. A hook is told the number of its call among
all calls of the host. -/
structure Connector where
  startError : Nat → Option TaskError := fun _ => none
  createError : Nat → Option TaskError := fun _ => none
  taskStartError : Nat → Option TaskError := fun _ => none
  /-- What the connector offers as configurations of a task; the first one is used. -/
  taskConfigs : List Properties := [[]]
  /-- The partitions whose committed offsets the task reads when it starts, if it reads any. -/
  resumes : Option (List Partition) := none

/-- What a consumer makes of a record in the end. -/
inductive Verdict where
  | accepts
  | rejects (report : Report)
  | panics
  deriving DecidableEq, Repr

/-- How a consumer reacts to a record: what it asks of the run that delivers it, one after the
other, and then its verdict. -/
structure Reaction where
  asks : List Control := []
  verdict : Verdict := .accepts
  deriving DecidableEq, Repr

/-- What does not change while a host lives. -/
structure Setup where
  config : Config
  registry : Registry Connector := .empty
  policy : Policy := .always
  /-- The reaction to each record, by its number among all records delivered. -/
  consumer : Nat → Reaction

namespace Setup

/-- How the positions of the host's connector stand in its store. -/
def offsetFormat (s : Setup) : OffsetFormat where
  scope := s.config.name
  keys := s.config.keyConverter.converter
  values := s.config.valueConverter.converter

/-- How long one flush may take, in nanoseconds. -/
def flushTimeout (s : Setup) : Nat :=
  s.config.flushTimeout * 1000000

end Setup

end ChangeCapture
