import IncusCloud.Lib.OrdMap

/-!
# Instances, as the mobility jobs see them

What `readInstance` of `mobility/facts.ts` returns, the tags the jobs put into an instance's config,
and what Incus does to an instance when it is asked to start, stop or delete it.
-/

namespace IncusCloud.Mobility

open Lib

inductive InstanceType
  | container | virtualMachine
  deriving DecidableEq

/-- `status`; the jobs compare it with `"Running"` and `"Stopped"`. -/
inductive Status
  | running | stopped | other (text : String)
  deriving DecidableEq

/-- `IncusInstance`, with the `ephemeral` flag Incus keeps beside it. -/
structure Instance where
  type : InstanceType
  status : Status
  ephemeral : Bool
  config : OrdMap String String
  deriving DecidableEq

def tagJob : String := "user.incuscloud.job"
def tagMigratedFrom : String := "user.incuscloud.migrated-from"
/-- Marks a replica with the policy that keeps it; a refresh only ever touches its own. -/
def tagReplicaOf : String := "user.incuscloud.replica-of"
def tagPromotedFrom : String := "user.incuscloud.promoted-from"

namespace Instance

/-- `config?.[tag]`. -/
def tag (i : Instance) (key : String) : Option String := i.config.get key

def started (i : Instance) : Instance := { i with status := .running }

/-- Incus stops it; an ephemeral instance is deleted when it stops. -/
def stopped (i : Instance) : Option Instance :=
  if i.ephemeral then none else some { i with status := .stopped }

end Instance

end IncusCloud.Mobility
