import IncusCloud.Lib.OrdMap
import Mathlib.Logic.Relation

/-!
# Placement groups

`util/placementGroups.ts`: how a project's config defines groups, and `PLACEMENT_SCRIPTLET`, which
Incus runs for every automatic placement. A project's instances are as Incus gives them to the
scriptlet, which places them one at a time.
-/

namespace IncusCloud.Placement

open Lib

abbrev Config := OrdMap String String

def placementGroupKey : String := "user.placement.group"
def defPrefix : String := "user.placement-group."

inductive Policy
  | spread | compact

inductive Rigor
  | strict | permissive

def Policy.text : Policy → String
  | .spread => "spread"
  | .compact => "compact"

def Rigor.text : Rigor → String
  | .strict => "strict"
  | .permissive => "permissive"

/-- `LxdPlacementGroup`, without what uses it. -/
structure Group where
  name : String
  description : String
  policy : Policy
  rigor : Rigor

/-! ### Definitions in project config -/

def defKey (name field : String) : String := defPrefix ++ name ++ "." ++ field

/-- Project config without `name`'s definition. -/
def withoutPlacementGroup (config : Config) (name : String) : Config :=
  config.filter fun e => !(defPrefix ++ name ++ ".").toList.isPrefixOf e.1.toList

/-- Project config with `group` defined (or redefined). -/
def withPlacementGroup (config : Config) (group : Group) : Config :=
  let config := withoutPlacementGroup config group.name
  let config := config.set (defKey group.name "policy") group.policy.text
  let config := config.set (defKey group.name "rigor") group.rigor.text
  if group.description = "" then config else config.set (defKey group.name "description") group.description

/-! ### Instances and requests -/

/-- An instance of `get_instances`; its profile-expanded config has all of its own. -/
structure Instance where
  name : String
  location : String
  expandedConfig : Config
  config : Config
  whole : expandedConfig = [] → config = []

def groupOf (config : Config) : String := (config.get placementGroupKey).getD ""

/-- `inst.expanded_config or inst.config or {}`. -/
def Instance.effective (i : Instance) : Config := if i.expandedConfig = [] then i.config else i.expandedConfig

def Instance.group (i : Instance) : String := groupOf i.effective

structure Project where
  name : String
  config : Config
  instances : List Instance
  distinct : (instances.map fun i => i.name).Nodup

inductive Reason
  | new | relocation | evacuation | rebalance

structure Request where
  name : String
  reason : Reason
  config : Config

inductive Verdict
  | default
  | target (member : String)
  | fail (message : String)
  deriving DecidableEq

/-! ### The scriptlet -/

/-- `_group_counts`: members running instances of the group, other than the one being placed. -/
def groupCounts (instances : List Instance) (group name : String) : OrdMap String ℕ :=
  instances.foldl
    (fun counts i =>
      if i.name = name then counts
      else if i.group = group then counts.set i.location ((counts.get i.location).getD 0 + 1)
      else counts)
    []

/-- `set_target(_least_loaded(members))`, over what `get_instances_count` answers: the first of the
lowest. -/
def leastLoaded (load : String → ℕ) : List String → Verdict
  | [] => .fail "min: argument is an empty sequence"
  | m :: ms => .target (ms.foldl (fun best m => if load m < load best then m else best) m)

/-- `strict`: an evacuation is never blocked, and a rebalance never breaks the policy. -/
def strictFor (config : Config) (group : String) : Reason → Bool
  | .evacuation => false
  | .rebalance => true
  | _ => (config.get (defKey group "rigor")).getD "strict" = "strict"

def placeSpread (load : String → ℕ) (strict : Bool) (group : String) (counts : OrdMap String ℕ)
    (names : List String) : Verdict :=
  let fewest := ((names.map fun n => (counts.get n).getD 0).min?).getD 0
  if fewest > 0 && strict then
    .fail ("placement group " ++ group ++
      " (spread, strict): every available cluster member already runs one of its instances")
  else leastLoaded load (names.filter fun n => (counts.get n).getD 0 = fewest)

def placeCompact (load : String → ℕ) (strict : Bool) (group : String) (counts : OrdMap String ℕ)
    (names : List String) : Verdict :=
  let occupied := names.filter fun n => (counts.get n).getD 0 > 0
  if occupied ≠ [] then
    let most := ((occupied.map fun n => (counts.get n).getD 0).max?).getD 0
    leastLoaded load (occupied.filter fun n => (counts.get n).getD 0 = most)
  -- The group's first instance: Incus' default placement anchors it.
  else if counts.length = 0 then .default
  else if strict then
    .fail ("placement group " ++ group ++
      " (compact, strict): the members running its instances are not available")
  else .default

def instancePlacement (load : String → ℕ) (p : Project) (request : Request)
    (candidates : List String) : Verdict :=
  let group := groupOf request.config
  if group = "" ∨ candidates = [] then .default
  else
    let policy := (p.config.get (defKey group "policy")).getD ""
    let strict := strictFor p.config group request.reason
    let counts := groupCounts p.instances group request.name
    if policy = "spread" then placeSpread load strict group counts candidates
    else if policy = "compact" then placeCompact load strict group counts candidates
    else .default

/-! ### Placements -/

/-- Where Incus puts an instance: at the target, else on any candidate. -/
inductive Placed (candidates : List String) : Verdict → String → Prop
  | target (member : String) : Placed candidates (.target member) member
  | default {member : String} (h : member ∈ candidates) : Placed candidates .default member

/-- What happens to a project's instances, but for evacuations. A placement that fails changes
nothing. -/
inductive Step (p : Project) : Project → Prop
  | create {q : Project} (load : String → ℕ) (candidates : List String) (i : Instance)
      (placed : Placed candidates (instancePlacement load p ⟨i.name, .new, i.expandedConfig⟩
        candidates) i.location)
      (config : q.config = p.config) (instances : q.instances = p.instances ++ [i]) : Step p q
  | move {q : Project} (load : String → ℕ) (candidates : List String) (i : Instance)
    (reason : Reason) (member : String)
      (there : i ∈ p.instances) (automatic : reason = .relocation ∨ reason = .rebalance)
      (placed : Placed candidates (instancePlacement load p ⟨i.name, reason, i.expandedConfig⟩
        candidates) member)
      (config : q.config = p.config)
      (instances : q.instances =
        p.instances.map fun j => if j.name = i.name then { j with location := member } else j) : Step p q
  | delete {q : Project} (name : String) (config : q.config = p.config)
      (instances : q.instances = p.instances.filter fun j => j.name ≠ name) : Step p q

abbrev Steps : Project → Project → Prop := Relation.ReflTransGen Step

end IncusCloud.Placement
