import IncusCloud.Lib.Double
import IncusCloud.Lib.OrdMap
import IncusCloud.Tenants.Quota

/-!
# Where a new instance goes

`tenants/placement.ts`: which of a tenant's placements a create is queued on.
-/

namespace IncusCloud.Tenants

open Lib

/-- `String.prototype.localeCompare`: an order of the texts, of which some may be level. -/
structure Collation where
  localeCompare : String → String → ℤ
  trans : ∀ {a b c}, localeCompare a b ≤ 0 → localeCompare b c ≤ 0 → localeCompare a c ≤ 0
  total : ∀ a b, localeCompare a b ≤ 0 ∨ localeCompare b a ≤ 0

/-- One of a tenant's placements, with what the inventory knows of its cluster. Differences of its
numbers of bytes are exact. -/
structure Candidate where
  clusterId : String
  clusterName : String
  project : String
  placementStatus : String
  clusterStatus : String
  labels : OrdMap String String
  /-- 0 when the inventory has not read the cluster yet. -/
  memoryTotal : ℕ
  memoryUsed : ℕ
  total_lt : memoryTotal < 2 ^ 53

/-- Clusters a tenant's instances may be created on: reconciled, even if partly. -/
def usableStatuses : List String := ["ready", "degraded"]

namespace Candidate

variable (c : Candidate) (memory : ℕ)

def usable : Bool := c.placementStatus = "ready" && usableStatuses.contains c.clusterStatus

def matchesAll (selector : OrdMap String String) : Bool := selector.all fun e => c.labels.get e.1 = some e.2

/-- `after`, the share of memory free after the request. -/
def after : ℚ :=
  if c.memoryUsed + memory ≤ c.memoryTotal then
    Double.nearest (c.memoryTotal - c.memoryUsed - memory) c.memoryTotal
  else -Double.nearest (c.memoryUsed + memory - c.memoryTotal) c.memoryTotal

end Candidate

def byName (L : Collation) (a b : Candidate) : Bool := L.localeCompare a.clusterName b.clusterName ≤ 0

/-- `b.after - a.after || a.c.clusterName.localeCompare(b.c.clusterName)` is not above zero. -/
def freerFirst (L : Collation) (memory : ℕ) (a b : Candidate) : Bool :=
  if a.after memory = b.after memory then byName L a b else b.after memory < a.after memory

def unlessEmpty (reason : String) (pool : List Candidate) : Except String (List Candidate) :=
  if pool = [] then .error reason else .ok pool

def onCluster (pool : List Candidate) : Option String → Except String (List Candidate)
  | none => .ok pool
  | some id => unlessEmpty "The tenant is not placed on that cluster" (pool.filter (·.clusterId = id))

def withLabels (pool : List Candidate) (selector : OrdMap String String) : Except String (List Candidate) :=
  if selector = [] then .ok pool
  else
    unlessEmpty ("No cluster of the tenant has " ++ ", ".intercalate (selector.map fun e => e.1 ++ "=" ++ e.2))
      (pool.filter (·.matchesAll selector))

/-- The pool of `choose`. -/
def poolOf (candidates : List Candidate) (clusterId : Option String)
    (labels : OrdMap String String) : Except String (List Candidate) := do
  let pool ← onCluster (candidates.filter (·.usable)) (clusterId.filter (· ≠ ""))
  let pool ← unlessEmpty "The tenant is not ready on any cluster" pool
  withLabels pool labels

/-- What `choose` makes of its pool. -/
def chooseFrom (L : Collation) (memory : ℕ) (pool : List Candidate) : Except String Candidate :=
  let known := pool.filter fun c => 0 < c.memoryTotal
  let fits := (known.filter fun c => 0 ≤ c.after memory).mergeSort (freerFirst L memory)
  let unknown := (pool.filter fun c => c.memoryTotal = 0).mergeSort (byName L)
  match fits.head?.or unknown.head? with
  | some pick => .ok pick
  | none => .error ("No cluster has " ++ showAmount .memory memory ++ " GiB of memory free")

/-- Where a new instance goes: among the tenant's ready placements on usable clusters, those
matching the label selector (or the one named), the cluster with the largest share of memory free
after the request. Clusters without inventory yet are kept, last; ties go by name. -/
def choose (L : Collation) (candidates : List Candidate) (memory : ℕ) (clusterId : Option String)
    (labels : OrdMap String String) : Except String Candidate := do
  chooseFrom L memory (← poolOf candidates clusterId labels)

end IncusCloud.Tenants
