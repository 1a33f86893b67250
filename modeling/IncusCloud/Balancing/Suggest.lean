import IncusCloud.Lib.Grouping
import Mathlib.Data.Rat.Floor

/-!
# Cross-cluster suggestions

`balancing/suggest.ts`, over exact numbers: for a tenant placed on several clusters, when its
hottest cluster's memory use exceeds its coolest's by more than the threshold, its largest running
instances on the hot one are suggested for a move to the cool one, while each move narrows the gap
and until it is within the threshold.
-/

namespace IncusCloud.Balancing

open Lib

structure SuggestCluster where
  id : String
  name : String
  memoryTotal : ℚ
  memoryUsed : ℚ

structure SuggestPlacement where
  tenantId : String
  tenantSlug : String
  clusterId : String
  project : String

structure SuggestInstance where
  id : String
  clusterId : String
  project : String
  name : String
  status : String
  memoryUsed : Option ℚ≥0
  deriving DecidableEq

structure SuggestInput where
  threshold : ℚ
  clusters : List SuggestCluster
  placements : List SuggestPlacement
  instances : List SuggestInstance

structure Suggestion where
  tenantId : String
  tenantSlug : String
  instanceId : String
  project : String
  name : String
  memoryBytes : ℚ
  fromClusterId : String
  fromClusterName : String
  toClusterId : String
  toClusterName : String
  toProject : String
  reason : String

def perTenant : ℕ := 5

def pct (used total : ℚ) : ℚ := used / total * 100

def mathRound (x : ℚ) : ℤ := (x + 1 / 2).floor

/-- `i.memoryUsed ?? 0`. -/
def SuggestInstance.memory (i : SuggestInstance) : ℚ := (i.memoryUsed.getD 0 : ℚ≥0)

def SuggestCluster.percent (c : SuggestCluster) : ℚ := pct c.memoryUsed c.memoryTotal

/-- `hotUsed` and `coolUsed` of two clusters. -/
structure Pair where
  hot : SuggestCluster
  cool : SuggestCluster
  hotUsed : ℚ
  coolUsed : ℚ

namespace Pair

def start (hot cool : SuggestCluster) : Pair := ⟨hot, cool, hot.memoryUsed, cool.memoryUsed⟩

def gap (p : Pair) : ℚ := pct p.hotUsed p.hot.memoryTotal - pct p.coolUsed p.cool.memoryTotal

def move (p : Pair) (bytes : ℚ) : Pair := { p with hotUsed := p.hotUsed - bytes, coolUsed := p.coolUsed + bytes }

def undo (p : Pair) (bytes : ℚ) : Pair := { p with hotUsed := p.hotUsed + bytes, coolUsed := p.coolUsed - bytes }

end Pair

/-- The loop over the candidates; `n` have been suggested so far. -/
def narrow (threshold : ℚ) : List SuggestInstance → Pair → ℕ → List SuggestInstance
  | [], _, _ => []
  | i :: rest, p, n =>
    if perTenant ≤ n ∨ |p.gap| ≤ threshold then []
    else
      let before := |p.gap|
      let moved := p.move i.memory
      if before ≤ |moved.gap| then narrow threshold rest (moved.undo i.memory) n
      else i :: narrow threshold rest moved (n + 1)

namespace SuggestInput

/-- `clusters`: of those with memory, the last one of each id. -/
def clusterMap (input : SuggestInput) : OrdMap String SuggestCluster :=
  OrdMap.ofList ((input.clusters.filter fun c => 0 < c.memoryTotal).map fun c => (c.id, c))

def placed (input : SuggestInput) : List (SuggestPlacement × SuggestCluster) :=
  input.placements.filterMap fun p => (input.clusterMap.get p.clusterId).map fun c => (p, c)

end SuggestInput

section

variable (localeCompare : String → String → ℤ)

/-- `a - b || x.localeCompare(y)` is not positive. -/
def notAfter (difference : ℚ) (x y : String) : Bool :=
  if difference = 0 then localeCompare x y ≤ 0 else difference < 0

/-- `ranked`: the hottest first. -/
def ranked (places : List (SuggestPlacement × SuggestCluster)) : List (SuggestPlacement × SuggestCluster) :=
  places.insertionSort fun a b => notAfter localeCompare (b.2.percent - a.2.percent) a.1.clusterId b.1.clusterId

/-- `candidates`: running instances in the project on the hot cluster, the largest first. -/
def candidates (input : SuggestInput) (project : String) (hot : SuggestCluster) : List SuggestInstance :=
  (input.instances.filter fun i =>
      i.clusterId = hot.id && i.project = project && i.status = "Running" && 0 < i.memory).insertionSort
    fun a b => notAfter localeCompare (b.memory - a.memory) a.name b.name

def reasonOf (hot cool : SuggestCluster) : String :=
  hot.name ++ " is at " ++ toString (mathRound hot.percent) ++ "% memory, " ++ cool.name ++ " at " ++
    toString (mathRound cool.percent) ++ "%"

def suggestionOf (tenantId : String) (hotP coolP : SuggestPlacement × SuggestCluster)
    (i : SuggestInstance) : Suggestion where
  tenantId := tenantId
  tenantSlug := hotP.1.tenantSlug
  instanceId := i.id
  project := i.project
  name := i.name
  memoryBytes := i.memory
  fromClusterId := hotP.2.id
  fromClusterName := hotP.2.name
  toClusterId := coolP.2.id
  toClusterName := coolP.2.name
  toProject := coolP.1.project
  reason := reasonOf hotP.2 coolP.2

def suggestBetween (input : SuggestInput) (tenantId : String)
    (hotP coolP : SuggestPlacement × SuggestCluster) : List Suggestion :=
  let start := Pair.start hotP.2 coolP.2
  if start.gap ≤ input.threshold then []
  else
    (narrow input.threshold (candidates localeCompare input hotP.1.project hotP.2) start 0).map
      (suggestionOf tenantId hotP coolP)

def suggestFor (input : SuggestInput) (tenantId : String)
    (places : List (SuggestPlacement × SuggestCluster)) : List Suggestion :=
  if places.length < 2 then []
  else
    match (ranked localeCompare places).head?, (ranked localeCompare places).getLast? with
    | some hotP, some coolP => suggestBetween localeCompare input tenantId hotP coolP
    | _, _ => []

def byTenant (input : SuggestInput) : OrdMap String (List (SuggestPlacement × SuggestCluster)) :=
  OrdMap.group (fun p => p.1.tenantId) input.placed

def suggest (input : SuggestInput) : List Suggestion :=
  ((byTenant input).insertionSort fun a b => localeCompare a.1 b.1 ≤ 0).flatMap fun e =>
    suggestFor localeCompare input e.1 e.2

end

end IncusCloud.Balancing
