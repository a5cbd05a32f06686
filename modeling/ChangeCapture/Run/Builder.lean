import ChangeCapture.Run.Host

/-!
# Building hosts

A host needs a configuration and a consumer. What else is not given takes its default: offsets in
memory, a commit after every batch, a registry of no connector, and no metrics.

## Main definitions

* `HostDraft`, `HostDraft.build`, `BuildError`.
* `Setup.describe`: how a connector shows itself.
-/

namespace ChangeCapture

/-- Why there is no host. -/
inductive BuildError where
  | noConfig
  | noConsumer
  deriving DecidableEq, Repr

/-- The wording of a build error. -/
def BuildError.message : BuildError → String
  | .noConfig => "Cannot build connector: a connector configuration must be specified"
  | .noConsumer => "Cannot build connector: a connector consumer must be specified"

/-- What was given for a host so far. -/
structure HostDraft where
  config : Option Config := none
  consumer : Option (Nat → Reaction) := none
  registry : Registry Connector := .empty
  store : PlannedStore := {}
  policy : Policy := .always
  metrics : Option Metrics := none

/-- **The host of a draft.** The configuration is missed before the consumer. -/
def HostDraft.build (d : HostDraft) : Except BuildError (Setup × Host) :=
  match d.config with
  | none => .error .noConfig
  | some config =>
    match d.consumer with
    | none => .error .noConsumer
    | some consumer =>
      .ok ({ config, registry := d.registry, policy := d.policy, consumer },
        { store := d.store, metrics := d.metrics })

/-- How a connector shows itself. -/
def Setup.describe (s : Setup) : String :=
  "EmbeddedConnector\x7bid=" ++ s.config.name ++ "\x7d"

end ChangeCapture
