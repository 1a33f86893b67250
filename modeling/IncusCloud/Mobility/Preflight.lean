import IncusCloud.Lib.Fields
import IncusCloud.Mobility.Incus

/-!
# Pre-flight

`mobility/preflight.ts`: whether an instance can go to a target, and the request the target gets. A
record is the list of its entries in the order JavaScript gives them. `JSON.parse` of Incus's boot
record is a parameter, `parse`: nothing below depends on what it answers.
-/

namespace IncusCloud.Mobility

open Lib

abbrev Config := OrdMap String String
abbrev Devices := OrdMap String Config

inductive Mode
  | copy | move
  deriving DecidableEq

structure SourceInstance where
  name : String
  type : InstanceType
  status : Status
  architecture : String
  config : Config
  expandedConfig : Option Config
  devices : Devices
  profiles : List String
  expandedDevices : Devices
  snapshots : ℕ
  apiExtensions : List String

structure TargetFacts where
  projectExists : Bool
  architectures : List String
  pools : List String
  networks : List String
  profiles : List String
  instanceNames : List String
  defaultProfileDevices : Devices
  apiExtensions : List String
  dropsBootState : Bool

structure PreflightInput where
  source : SourceInstance
  target : TargetFacts
  targetName : String
  mode : Mode
  live : Bool
  pool : Option String

structure TargetRequest where
  name : String
  type : InstanceType
  architecture : String
  config : Config
  devices : Devices
  profiles : List String
  deriving DecidableEq

structure Preflight where
  problems : List String
  warnings : List String
  request : TargetRequest

def Preflight.ok (c : Preflight) : Bool := c.problems.length = 0

structure BootState where
  machine_type : Option String
  sockets : Option ℕ
  cores : Option ℕ
  threads : Option ℕ

/-- The text, when it is one JavaScript takes for true. -/
def truthy (s : Option String) : Option String := s.filter fun t => t ≠ ""

section

variable (parse : String → Option BootState)

def bootState (raw : Option String) : Option BootState := parse (raw.getD "")

def bootMachine (raw : Option String) : Option String :=
  truthy ((bootState parse raw).bind (·.machine_type))

def bootCpus (raw : Option String) : ℕ :=
  let t := bootState parse raw
  (t.bind (·.sockets)).getD 1 * (t.bind (·.cores)).getD 1 * (t.bind (·.threads)).getD 1

def rootOf (devices : Devices) : Option (String × Config) :=
  devices.find? fun e => e.2.get "type" = some "disk" ∧ e.2.get "path" = some "/"

def poolOf (i : PreflightInput) : Option String × List String :=
  let t := i.target
  match truthy i.pool with
  | some pool =>
    (some pool,
      if pool ∈ t.pools then [] else ["Storage pool \"" ++ pool ++ "\" does not exist on the target"])
  | none =>
    let profilePool :=
      (truthy ((rootOf t.defaultProfileDevices).bind (·.2.get "pool"))).filter (· ∈ t.pools)
    let pool :=
      match profilePool with
      | some p => some p
      | none => if t.pools.length = 1 then t.pools.head? else none
    (truthy pool, if (truthy pool).isSome then [] else ["Choose a storage pool on the target"])

structure Gathered where
  devices : Devices
  problems : List String
  warnings : List String

namespace Gathered

def problem (g : Gathered) (text : String) : Gathered := { g with problems := g.problems ++ [text] }
def warn (g : Gathered) (text : String) : Gathered := { g with warnings := g.warnings ++ [text] }
def keep (g : Gathered) (name : String) (d : Config) : Gathered :=
  { g with devices := put g.devices name d }

def device (i : PreflightInput) (g : Gathered) (name : String) (d : Config) : Gathered :=
  let s := i.source
  let t := i.target
  let isLocal := isIn name s.devices
  if d.get "type" = some "nic" then
    if !isLocal then
      if s.profiles.contains "default" && !isIn name t.defaultProfileDevices then
        g.warn ("The target's default profile has no \"" ++ name ++
          "\": the instance will have no such NIC there")
      else g
    else
      let g :=
        match truthy (d.get "network") with
        | some network =>
          if t.networks.contains network then g
          else
            g.problem ("Network \"" ++ network ++ "\" (" ++ name ++ ") does not exist on the target")
        | none => g.warn (name ++ " (nic) is copied as is")
      g.keep name d
  -- Profiles on the target supply their own devices.
  else if !isLocal then g
  else
    match truthy (d.get "pool"), truthy (d.get "source"), d.get "type" with
    | some _, some source, some "disk" =>
      g.problem ("Volume \"" ++ source ++ "\" (" ++ name ++ ") is not migrated; detach it first")
    | _, source, type =>
      if type = some "disk" ∧ "/".toList.isPrefixOf (source.getD "").toList then
        (g.warn ("Host path \"" ++ source.getD "" ++ "\" (" ++ name ++
          ") must exist on the target")).keep name d
      else if type ≠ some "none" ∧ type ≠ some "disk" then
        (g.warn (name ++ " (" ++ type.getD "undefined" ++ ") is copied as is")).keep name d
      else g.keep name d

end Gathered

def livePreflight (i : PreflightInput) : List String × List String :=
  let s := i.source
  let t := i.target
  let cfg := s.expandedConfig.getD s.config
  let raw := s.config.get "volatile.vm.boot_state"
  if s.type = .container then (["Containers cannot move live"], [])
  else
    let p₁ := if s.status = .running then [] else ["Only a running instance moves live"]
    let p₂w :=
      if cfg.get "migration.stateful" ≠ some "true" then
        (["Live moves need migration.stateful=true on the instance"], [])
      else if s.status = .running ∧ bootMachine parse raw = none then
        (["Restart this VM before moving it live: Incus has no record of how it booted (as after " ++
          "a live move into a tenant project)"], [])
      else if t.dropsBootState then
        if 1 < bootCpus parse raw then
          (["Incus can't move a VM with more than one vCPU live into a tenant project: the " ++
            "restricted project drops the VM's boot record and the restore fails. Move it with a " ++
            "restart instead"], [])
        else
          ([], ["The VM must be restarted on the target before it can move live again: the tenant " ++
            "project drops its boot record"])
      else ([], [])
    let p₃ :=
      if s.apiExtensions.contains "migration_vm_live" then []
      else ["The source does not support live VM migration"]
    let p₄ :=
      if t.apiExtensions.contains "migration_vm_live" then []
      else ["The target does not support live VM migration"]
    (p₁ ++ p₂w.1 ++ p₃ ++ p₄, p₂w.2)

/-- A move keeps the instance's identity; a copy is a new instance. -/
def keepKey (mode : Mode) (k : String) : Bool :=
  k ≠ "volatile.last_state.power" ∧
    (mode = .move ∨ ¬ "volatile.".toList.isPrefixOf k.toList ∨ k = "volatile.base_image")

/-- Checks whether an instance can go to the target, and builds the target request. -/
def preflight (i : PreflightInput) : Preflight :=
  let s := i.source
  let t := i.target
  let p₁ := if t.projectExists then [] else ["The target project does not exist"]
  let p₂ :=
    if t.instanceNames.contains i.targetName then
      ["An instance named \"" ++ i.targetName ++ "\" already exists on the target"]
    else []
  let p₃ :=
    if t.architectures ≠ [] ∧ s.architecture ∉ t.architectures then
      ["The target has no " ++ s.architecture ++ " members"]
    else []
  let p₄ :=
    (s.profiles.filter (· ∉ t.profiles)).map fun p =>
      "Profile \"" ++ p ++ "\" does not exist on the target"
  let pool := poolOf i
  let root := rootOf s.expandedDevices
  let devices : Devices :=
    match root, pool.1 with
    | some r, some p => put [] r.1 (put r.2 "pool" p)
    | _, _ => []
  let g :=
    s.expandedDevices.foldl
      (fun g e => if root.map (·.1) = some e.1 then g else g.device i e.1 e.2)
      (⟨devices, p₁ ++ p₂ ++ p₃ ++ p₄ ++ pool.2, []⟩ : Gathered)
  let live :=
    if i.live then livePreflight parse i
    else if s.status = .running then
      ([],
        [match i.mode with
          | .move =>
            "The " ++ (if s.type = .container then "container" else "instance") ++
              " is stopped for the move and started again on the target"
          | .copy => "The copy is not started"])
    else ([], [])
  let snapshots :=
    if 0 < s.snapshots then
      [toString s.snapshots ++ " snapshot" ++ (if s.snapshots = 1 then " is" else "s are") ++
        " copied too"]
    else []
  { problems := g.problems ++ live.1
    warnings := g.warnings ++ live.2 ++ snapshots
    request :=
      { name := i.targetName, type := s.type, architecture := s.architecture
        config := s.config.filter fun e => keepKey i.mode e.1
        devices := g.devices, profiles := s.profiles } }

end

end IncusCloud.Mobility
