import IncusCloud.Firecloud.Disks
import IncusCloud.Lib.Handler
import Mathlib.Algebra.GroupWithZero.Nat
import Mathlib.Data.List.Dedup

/-!
# The disk questions

`askDisks` (`cmd/firecloud/ask.go`, `ask_shared.go`): the local pool, Ceph's disks and the shared
pool, for every sequence of the operator's answers, each of which may fail. The keys of `c.state`
are the systems' names, so `info.ClusterName` is the key. The rows of a table are in the order of
the maps: which rows are picked, and in which order, is the answer's.

What was asked and answered is history.
-/

namespace IncusCloud.Firecloud

open Lib
open Function (update)

scoped instance lawfulPairs : LawfulBEq (String × String) := inferInstance

/-! ### Questions -/

/-- A row of a disk table; the columns that nothing reads are left out. -/
structure Row where
  location : String
  type : String
  path : String

inductive Pool
  | localPool | remotePool | sharedPool
  deriving DecidableEq

inductive WizardError
  | context
  | warning
  | input (message : String)
  deriving DecidableEq

inductive WizardCall
  | askBool (question : String)
  | retry (pool : Pool)
  /-- What `parseLoopSize` reads of a valid answer. -/
  | askLoopSize (question : String)
  | select (pool : Pool) (rows : List Row)
  /-- `table.Render`, of "Select which disks to wipe:". -/
  | selectWipe (pool : Pool) (rows : List Row)
  | choose (options : List String)
  | askString (question : String)
  | hasExtension (extension : String)
  /-- `GetDisks` of an existing MicroCeph: the locations and paths. -/
  | cephDisks (member : String)
  | askCephNetwork
  | connect
  | memberPool (member pool : String)

def WizardCall.Answer : WizardCall → Type
  | askBool _ => Bool
  | retry _ => Bool
  | askLoopSize _ => ℕ
  | select _ _ => List Row
  | selectWipe _ _ => List Row
  | choose _ => String
  | askString _ => String
  | hasExtension _ => Bool
  | cephDisks _ => List (String × String)
  | askCephNetwork => Unit
  | connect => Unit
  | memberPool _ _ => Option (OrdMap String String)

structure Reply where
  error : Option WizardError := none
  yes : Bool := true
  sizeGiB : ℕ := 0
  picks : List ℕ := []
  text : String := ""
  disks : List (String × String) := []
  config : Option (OrdMap String String) := none

structure Asked where
  chosen : Pool → List Row
  wiped : Pool → List Row

variable (rows : List Row)

def pickRows (picks : List ℕ) : List Row :=
  (picks.dedup.filterMap (rows[·]?)).insertionSort fun a b => a.location ≤ b.location

structure Site where
  name : String
  microCeph : Bool
  extensions : String → Bool

section

variable (site : Site) (o : Reply)

def Reply.answer {α : Type} (a : α) (w : Asked) : Except WizardError α × Asked :=
  (match o.error with
  | some e => .error e
  | none => .ok a, w)

/-- The answer of a table, which becomes what is chosen. -/
def Reply.selected (pool : Pool) (rows : List Row) (w : Asked) :
    Except WizardError (List Row) × Asked :=
  match o.error with
  | some e => (.error e, { w with chosen := update w.chosen pool [] })
  | none => (.ok (pickRows rows o.picks), { w with chosen := update w.chosen pool (pickRows rows o.picks) })

/-- The answer of a table of what to wipe; where it fails, so does the selection. -/
def Reply.wipes (pool : Pool) (rows : List Row) (w : Asked) :
    Except WizardError (List Row) × Asked :=
  match o.error with
  | some e => (.error e, { w with chosen := update w.chosen pool [] })
  | none => (.ok (pickRows rows o.picks), { w with wiped := update w.wiped pool (pickRows rows o.picks) })

/-- Whether to try again; disks for the local pool that are not chosen anew are given up. -/
def Reply.retries (pool : Pool) (w : Asked) : Except WizardError Bool × Asked :=
  match o.error with
  | some e => (.error e, w)
  | none =>
    (.ok o.yes,
      if pool = .localPool ∧ o.yes = false then { w with chosen := update w.chosen .localPool [] } else w)

def wizardAnswer (c : WizardCall) (w : Asked) (o : Reply) : Except WizardError c.Answer × Asked :=
  match c with
  | .askBool _ => o.answer o.yes w
  | .retry pool => o.retries pool w
  | .askLoopSize _ => o.answer o.sizeGiB w
  | .select pool rows => o.selected pool rows w
  | .selectWipe pool rows => o.wipes pool rows w
  | .choose options => o.answer (if o.text ∈ options then o.text else options.getLastD "") w
  | .askString _ => o.answer o.text w
  | .hasExtension extension => o.answer (site.extensions extension) w
  | .cephDisks _ => o.answer o.disks w
  | .askCephNetwork => o.answer () w
  | .connect => o.answer () w
  | .memberPool _ _ => (.ok o.config, w)

def operator : World WizardCall WizardCall.Answer WizardError Asked Reply := ⟨wizardAnswer site⟩

end

/-! ### The configuration -/

/-- The part of `initConfig` that the disk questions are about. -/
structure InitConfig where
  systems : OrdMap String InitSystem
  state : OrdMap String SystemInformation
  sharedLUNs : List Disk
  lvmCluster : Bool

/-- The configuration, and the variables that the questions' closures assign. -/
structure Asking where
  config : InitConfig
  selectedDisks : OrdMap String String
  toWipe : OrdMap String String
  /-- Of `askRemotePool`: the rows behind `selectedDisks`, and the targets and paths in `wipeDisks`. -/
  osdRows : List Row
  wipeDisks : List (String × String)
  lvmPath : String

abbrev Wizard := Handler WizardCall WizardCall.Answer WizardError Asking

namespace Wizard

open Handler (call)

variable (question : String)

def askBool : Wizard Bool := call (WizardCall.askBool question)
def retry (pool : Pool) : Wizard Bool := call (WizardCall.retry pool)
def askLoopSize : Wizard ℕ := call (WizardCall.askLoopSize question)
def select (pool : Pool) (rows : List Row) : Wizard (List Row) := call (WizardCall.select pool rows)
def selectWipe (pool : Pool) (rows : List Row) : Wizard (List Row) := call (WizardCall.selectWipe pool rows)
def choose (options : List String) : Wizard String := call (WizardCall.choose options)
def askString : Wizard String := call (WizardCall.askString question)
def hasExtension (extension : String) : Wizard Bool := call (WizardCall.hasExtension extension)
def cephDisks (member : String) : Wizard (List (String × String)) := call (WizardCall.cephDisks member)
def askCephNetwork : Wizard Unit := call WizardCall.askCephNetwork
def connect : Wizard Unit := call WizardCall.connect
def memberPool (member pool : String) : Wizard (Option (OrdMap String String)) :=
  call (WizardCall.memberPool member pool)

end Wizard

open Wizard
open Handler (locals assign when)

/-- Asks again until it succeeds or the operator does not want to; the operator is there for so many
tries. -/
def askRetry (pool : Pool) (f : Wizard Unit) : ℕ → Wizard Unit
  | 0 => throw .context
  | tries + 1 => tryCatch f fun e =>
    if e = .context then throw e
    else do
      let again ← retry pool
      when again (askRetry pool f tries)

def askIf {α : Type} (asks : Bool) (otherwise : α) (m : Wizard α) : Wizard α :=
    if asks then m else pure otherwise

def rowsOf (disks : OrdMap String (OrdMap String Disk)) : List Row :=
  disks.flatMap fun e => e.2.map fun d => ⟨e.1, d.2.type, devicePath d.2⟩

/-! ### The local pool -/

def askedLocal (state : OrdMap String SystemInformation) : Option (Bool × List String) :=
  if state.any fun e => !e.2.supportsLocalPool.2 then none
  else some (state.any fun e => e.2.supportsLocalPool.1,
    (state.filter fun e => !e.2.supportsLocalPool.1).map (·.1))

def withLocalLoop (loopGiB : ℕ) (disks : OrdMap String Disk) : OrdMap String Disk :=
  if 0 < loopGiB then disks.set (localLoopSpec loopGiB) (loopDisk (localLoopSpec loopGiB)) else disks

/-- `availableDisks`: what is offered on the systems that have disks or a loop file. -/
def localDisks (state : OrdMap String SystemInformation) (askSystems : List String) (loopGiB : ℕ) :
    OrdMap String (OrdMap String Disk) :=
  (((state.filter fun e => e.1 ∈ askSystems).map fun e =>
    (e.1, withLocalLoop loopGiB e.2.availableDisks))).filter
    fun e => e.2 ≠ []

variable (askSystems : List String)

def shareLocalLoops (loopGiB : ℕ) (state : OrdMap String SystemInformation) :
    OrdMap String SystemInformation :=
  state.map fun e =>
    if e.1 ∈ askSystems ∧ e.2.availableDisks ≠ [] then
      (e.1, { e.2 with availableDisks := withLocalLoop loopGiB e.2.availableDisks })
    else e

/-- `selected`: one path for each target. -/
def oneEach : Except WizardError (OrdMap String String) :=
  rows.foldlM (fun selected row =>
    if (selected.get row.location).isSome then
      .error (.input ("Failed to add local storage pool: Selected more than one disk for target peer \"" ++
        row.location ++ "\""))
    else .ok (selected.set row.location row.path)) []

def orThrow {α : Type} : Except WizardError α → Wizard α
  | .ok a => pure a
  | .error e => throw e

/-- Loop files are new files: there is nothing to wipe. -/
def deviceRows : List Row := rows.filter fun row => row.type ≠ diskTypeLoop

/-- The closure of `askLocalPool`. -/
def selectLocal (askSystems : List String) (wipeable : Bool) : Wizard Unit := do
  let answers ← select .localPool rows
  if answers = [] then throw (.input "No disks selected")
  else do
    let selected ← orThrow (oneEach answers)
    if selected.length ≠ askSystems.length then
      throw (.input "Failed to add local storage pool: Some peers don't have an available disk")
    else do
      when (wipeable && deviceRows answers ≠ []) do
        let wipe ← selectWipe .localPool (deviceRows answers)
        assign fun l => { l with toWipe := wipe.foldl (fun m row => m.set row.location row.path) l.toWipe }
      assign fun l => { l with selectedDisks := selected }

section

variable (wipeable : Bool) (selected toWipe : OrdMap String String) (peer : String)

/-- `toWipe[target] != ""`. -/
def wipesTarget : Bool := wipeable && (toWipe.get peer).getD "" ≠ ""

/-- `joinConfigs[peer]`. -/
def localJoinConfig : List ClusterMemberConfigKey :=
  match selected.get peer with
  | none => []
  | some path =>
    match localLoopSize path with
    | some size => defaultLoopZFSStoragePoolJoinConfig size
    | none => defaultZFSStoragePoolJoinConfig (wipesTarget wipeable toWipe peer) path

/-- `targetConfigs[peer]`. -/
def localTargetConfig : List StoragePoolsPost :=
  match selected.get peer with
  | none => []
  | some path =>
    match localLoopSize path with
    | some size => [defaultPendingLoopZFSStoragePool size]
    | none => [defaultPendingZFSStoragePool (wipesTarget wipeable toWipe peer) path]

end

structure LocalPlan where
  name : String
  askSystems : List String
  useJoinConfig : Bool
  wipeable : Bool
  loopGiB : ℕ
  selected : OrdMap String String
  toWipe : OrdMap String String

def LocalPlan.system (p : LocalPlan) (peer : String) (system : InitSystem) : InitSystem :=
  if peer ∈ p.askSystems then
    if p.useJoinConfig then
      { system with joinConfig := system.joinConfig ++ localJoinConfig p.wipeable p.selected p.toWipe peer }
    else
      { system with
        targetStoragePools :=
          system.targetStoragePools ++ localTargetConfig p.wipeable p.selected p.toWipe peer
        storagePools := system.storagePools ++ if peer = p.name then [defaultZFSStoragePool] else [] }
  else system

/-- `newAvailableDisks[peer]`, of what was offered on a system: all but the disk that is selected. -/
def LocalPlan.left (p : LocalPlan) (peer : String) (info : SystemInformation) : SystemInformation :=
  if peer ∈ p.askSystems then
    { info with availableDisks :=
      match p.selected.get peer with
      | none => []
      | some path => (withLocalLoop p.loopGiB info.availableDisks).filter fun e => formatDiskPath e.2 ≠ path }
  else info

def LocalPlan.apply (p : LocalPlan) (c : InitConfig) : InitConfig :=
  { c with
    systems := c.systems.map fun e => (e.1, p.system e.1 e.2)
    state := c.state.map fun e => (e.1, p.left e.1 e.2) }

def loopQuestion (enough : Bool) : String :=
  if enough then "Offer a loop file on each system for local storage? Size (e.g. 100GiB), empty for none:"
  else "Some systems have no free disk or partition. Size of a loop file for local storage (e.g. 100GiB), empty to skip:"

variable (site : Site)

def askLocalPool (tries : ℕ) : Wizard Unit := do
  let l ← locals
  match askedLocal l.config.state with
  | none => pure ()
  | some (useJoinConfig, askSystems) =>
    if askSystems = [] then pure ()
    else do
      let wantsDisks ← askBool "Would you like to set up local storage?"
      if !wantsDisks then pure ()
      else do
        let loopGiB ← askLoopSize
          (loopQuestion ((localDisks l.config.state askSystems 0).length = askSystems.length))
        assign fun l => { l with config.state := shareLocalLoops askSystems loopGiB l.config.state }
        let availableDisks := localDisks l.config.state askSystems loopGiB
        if availableDisks.length ≠ askSystems.length then pure ()
        else do
          let wipeable ← hasExtension "storage_pool_source_wipe"
          assign fun l => { l with selectedDisks := [], toWipe := [] }
          askRetry .localPool (selectLocal (rowsOf availableDisks) askSystems wipeable) tries
          let l ← locals
          -- Every disk that is selected is to be wiped.
          let toWipe := if wipeable then l.selectedDisks else l.toWipe
          when (l.selectedDisks ≠ []) (assign fun l =>
            { l with config :=
              (LocalPlan.mk site.name askSystems useJoinConfig wipeable loopGiB l.selectedDisks
                toWipe).apply l.config })

/-! ### Ceph -/

def recommendedOSDHosts : ℕ := 3

structure RemoteAsk where
  joinRemote : Bool
  joinRemoteFS : Bool
  askSystemsRemote : List String
  askSystemsRemoteFS : List String

def askedRemote : OrdMap String SystemInformation → Except WizardError (Option RemoteAsk)
  | [] => .ok (some ⟨false, false, [], []⟩)
  | (name, info) :: rest =>
    if !info.supportsRemotePool.2 then .ok none
    else if !info.supportsRemoteFSPool.2 then .ok none
    else if !info.supportsRemotePool.1 && info.supportsRemoteFSPool.1 then
      .error (.input "Unsupported configuration, remote-fs pool already exists")
    else
      (askedRemote rest).map fun ask => ask.map fun ask =>
        { joinRemote := info.supportsRemotePool.1 || ask.joinRemote
          joinRemoteFS := info.supportsRemoteFSPool.1 || ask.joinRemoteFS
          askSystemsRemote :=
            if info.supportsRemotePool.1 then ask.askSystemsRemote else name :: ask.askSystemsRemote
          askSystemsRemoteFS :=
            if info.supportsRemoteFSPool.1 then ask.askSystemsRemoteFS else name :: ask.askSystemsRemoteFS }

variable (c : InitConfig)

/-- `existingClusterDisks`: the members of an existing MicroCeph that have disks, from the first
system that is one of its members. -/
def existingMembers : Wizard (List String) :=
  match c.state.find? fun e => e.2.cephClustered with
  | none => pure []
  | some (name, _) =>
    if (c.systems.get name).isNone then throw (.input ("Failed to find system \"" ++ name ++ "\""))
    else do
      let disks ← cephDisks name
      pure (if disks = [] then [] else name :: disks.map (·.1))

def offerCephLoops (loopGiB : ℕ) (state : OrdMap String SystemInformation) :
    OrdMap String SystemInformation :=
  if 0 < loopGiB then
    state.map fun e =>
      if e.1 ∈ askSystems then
        (e.1, { e.2 with
          availableDisks := e.2.availableDisks.set (cephLoopSpec loopGiB) (loopDisk (cephLoopSpec loopGiB)) })
      else e
  else state

/-- `availableDisks`. -/
def remoteDisks (state : OrdMap String SystemInformation) : OrdMap String (OrdMap String Disk) :=
  (state.filter fun e => e.1 ∈ askSystems).map fun e => (e.1, e.2.availableDisks)

/-- The closure of `askRemotePool`. -/
def selectRemote (existing : List String) (joinRemote : Bool) : Wizard Unit := do
  assign fun l => { l with osdRows := [], wipeDisks := [] }
  if rows = [] then throw (.input "Invalid disk configuration. Found no available disks")
  else do
    let selected ← select .remotePool rows
    let toWipe ← askIf (deviceRows selected ≠ []) [] (selectWipe .remotePool (deviceRows selected))
    assign fun l => { l with osdRows := selected, wipeDisks := toWipe.map fun row => (row.location, row.path) }
    if selected = [] ∧ existing = [] then throw (.input "No disks were selected")
    else if !joinRemote && (existing ++ selected.map (·.location)).dedup.length < recommendedOSDHosts then
      throw .warning
    else pure ()

def cephLoopQuestion (enough : Bool) : String :=
  if enough then "Offer a loop file on each system as a Ceph disk? Size (e.g. 50GiB), empty for none:"
  else "No free disks or partitions. Size of a loop file on each system for Ceph (e.g. 50GiB), empty to skip:"

/-- The disks that are there for Ceph, before loop files. -/
def freeDisks (state : OrdMap String SystemInformation) : ℕ :=
  ((remoteDisks askSystems state).map fun e => e.2.length).sum

def availableDiskCount (state : OrdMap String SystemInformation) (loopGiB : ℕ) : ℕ :=
  freeDisks askSystems state + if 0 < loopGiB then askSystems.length else 0

def chooseOSDs (ask : RemoteAsk) (existing : List String) (offers : Bool) (tries : ℕ) : Wizard Bool := do
  let offered ← locals
  when offers
    (askRetry .remotePool
      (selectRemote (rowsOf (remoteDisks ask.askSystemsRemote offered.config.state))
        existing ask.joinRemote) tries)
  let l ← locals
  pure (l.osdRows ≠ [] || existing ≠ [])

def askOSDs (ask : RemoteAsk) (tries : ℕ) : Wizard Bool := do
  let l ← locals
  assign fun l => { l with osdRows := [], wipeDisks := [] }
  if ask.askSystemsRemote = [] then pure true
  else do
    let existing ← existingMembers l.config
    let wantsDisks ← askBool "Would you like to set up distributed storage?"
    let loopGiB ← askIf wantsDisks 0
      (askLoopSize (cephLoopQuestion (freeDisks ask.askSystemsRemote l.config.state ≠ 0)))
    assign fun l => { l with config.state := offerCephLoops ask.askSystemsRemote loopGiB l.config.state }
    let count := availableDiskCount ask.askSystemsRemote l.config.state loopGiB
    if count = 0 ∧ existing = [] then pure false
    else chooseOSDs ask existing (0 < count && wantsDisks) tries

structure RemotePlan where
  name : String
  ask : RemoteAsk
  setupCephFS : Bool
  encrypt : Bool
  dropSource : Bool
  rbdDefaults : Bool
  osdRows : List Row
  wipeDisks : List (String × String)

namespace RemotePlan

variable (p : RemotePlan) (peer : String)

/-- `osds[peer]`. -/
def osds : List DisksPost :=
  (p.osdRows.filter fun row => row.location = peer).map fun row =>
    ⟨row.path, (peer, row.path) ∈ p.wipeDisks, p.encrypt && !isLoopSpec row.path⟩

/-- `joinConfigs[peer]`. -/
def joinConfig : List ClusterMemberConfigKey :=
  (if p.ask.joinRemote ∧ peer ∈ p.ask.askSystemsRemote then [defaultCephStoragePoolJoinConfig] else []) ++
    if p.ask.joinRemoteFS ∧ peer ∈ p.ask.askSystemsRemoteFS then
      defaultCephFSStoragePoolJoinConfig p.dropSource
    else []

def newFS : Bool := !p.ask.joinRemoteFS && p.setupCephFS

/-- `targetConfigs[peer]`. -/
def targetConfig : List StoragePoolsPost :=
  (if !p.ask.joinRemote ∧ peer ∈ p.ask.askSystemsRemote then
    [defaultPendingCephStoragePool p.dropSource] else []) ++
    if p.newFS ∧ peer ∈ p.ask.askSystemsRemoteFS then [defaultPendingCephFSStoragePool p.dropSource] else []

def finalConfigs : List StoragePoolsPost :=
  (if !p.ask.joinRemote ∧ p.ask.askSystemsRemote ≠ [] then [defaultCephStoragePool p.rbdDefaults] else []) ++
    if p.newFS ∧ (p.ask.askSystemsRemoteFS ≠ [] ∨ (!p.ask.joinRemote ∧ p.ask.askSystemsRemote ≠ [])) then
      [defaultCephFSStoragePool]
    else []

def system (system : InitSystem) : InitSystem where
  joinConfig := system.joinConfig ++ p.joinConfig peer
  targetStoragePools := system.targetStoragePools ++ p.targetConfig peer
  microCephDisks := system.microCephDisks ++ p.osds peer
  storagePools := system.storagePools ++ if peer = p.name then p.finalConfigs else []

def apply : InitConfig := { c with systems := c.systems.map fun e => (e.1, p.system e.1 e.2) }

end RemotePlan

def askCephFS (joinRemoteFS : Bool) : Wizard Bool :=
  if joinRemoteFS then pure true
  else do
    let hasCephFS ← hasExtension "storage_cephfs_create_missing"
    askIf hasCephFS false (askBool "Would you like to set up CephFS remote storage?")

def askRemotePool (tries : ℕ) : Wizard Unit :=
  if !site.microCeph then pure ()
  else do
    let l ← locals
    let asked ← orThrow (askedRemote l.config.state)
    match asked with
    | none => pure ()
    | some ask => do
      let wanted ← askOSDs ask tries
      when wanted do
        let l ← locals
        let hasDevices := l.osdRows.any fun row => !isLoopSpec row.path
        let encrypt ← askIf hasDevices false (askBool "Do you want to encrypt the selected disks?")
        let setupCephFS ← askCephFS ask.joinRemoteFS
        askCephNetwork
        -- Each pool's configuration asks for the extension; the server answers the same every time.
        let dropSource ← hasExtension "storage_remote_drop_source"
        let rbdDefaults ← hasExtension "storage_ceph_use_rbd_defaults"
        assign fun l =>
          { l with config := (RemotePlan.mk site.name ask setupCephFS encrypt dropSource rbdDefaults l.osdRows
            l.wipeDisks).apply l.config }

/-! ### The shared pool -/

def sharedTrueNAS : String := "truenas"
def sharedLVMCluster : String := "lvmcluster"

def canBeShared (disk : Disk) : Bool :=
  disk.deviceID ≠ "" && disk.type ≠ "partition" && disk.type ≠ diskTypeLoop

def sharedDisks (state : OrdMap String SystemInformation) : List Disk :=
  let disks := state.flatMap fun e => (e.2.availableDisks.map (·.2)).filter canBeShared
  let paths := disks.map formatDiskPath
  ((paths.dedup.filter fun path => paths.count path = state.length).filterMap fun path =>
    disks.find? fun disk => formatDiskPath disk = path).insertionSort fun a b =>
      formatDiskPath a ≤ formatDiskPath b

def InitConfig.hasRemotePool : Bool :=
  c.systems.any fun e =>
    (e.2.targetStoragePools ++ e.2.storagePools).any (fun pool => pool.name = defaultCephPool) ||
      e.2.joinConfig.any fun cfg => cfg.entity = "storage-pool" && cfg.name = defaultCephPool

def InitConfig.existingSharedPool : Option StoragePool :=
  c.state.firstM fun e =>
    e.2.existingRemotePool.filter fun pool => pool.driver = sharedTrueNAS || pool.driver = sharedLVMCluster

def firstMemberConfig (pool : String) : List String → Wizard (Option (OrdMap String String))
  | [] => pure none
  | name :: names => do
    let config ← memberPool name pool
    if config.isSome then pure config else firstMemberConfig pool names

def joinsShared (config : OrdMap String String) (systems : OrdMap String InitSystem)
    (name : String) : OrdMap String InitSystem :=
  let system := (systems.get name).getD .empty
  systems.set name { system with joinConfig := system.joinConfig ++ sharedPoolJoinConfig config }

def joinSharedPool (pool : StoragePool) : Wizard Unit := do
  connect
  let l ← locals
  let has := l.config.state.filter fun e => e.2.existingRemotePool.isSome
  let config ← firstMemberConfig pool.name (has.map (·.1))
  match config with
  | none => throw (.input ("Failed to read the settings of the \"" ++ pool.name ++
    "\" pool from an existing member"))
  | some config =>
    let joining := (l.config.state.filter fun e => e.2.existingRemotePool.isNone).map (·.1)
    assign fun l =>
      { l with
        config.systems := joining.foldl (joinsShared config) l.config.systems
        config.lvmCluster := l.config.lvmCluster || pool.driver = sharedLVMCluster }

def askTrueNASPool : Wizard Unit := do
  let host ← askString "TrueNAS host (name or address):"
  let apiKey ← askString "TrueNAS API key:"
  let dataset ← askString "Dataset for Incus volumes (e.g. tank/incus/):"
  let insecure ← askBool "Accept a self-signed TrueNAS certificate?"
  let cfg : TrueNASConfig := ⟨host, apiKey, dataset, insecure⟩
  assign fun l =>
    { l with config.systems := l.config.systems.map fun e =>
      (e.1, { e.2 with
        targetStoragePools := e.2.targetStoragePools ++ [defaultPendingTrueNASStoragePool cfg]
        storagePools :=
          e.2.storagePools ++ if e.1 = site.name then [defaultTrueNASStoragePool cfg] else [] }) }

/-- The closure of `askLVMClusterPool`. -/
def selectShared : Wizard Unit := do
  let answers ← select .sharedPool rows
  match answers with
  | [row] => assign fun l => { l with lvmPath := row.path }
  | _ => throw (.input "Select exactly one disk")

/-- What is planned of clustered LVM: the pool, and the disk is no longer there for another. -/
def InitConfig.withLVM (name path : String) : InitConfig :=
  { c with
    systems := c.systems.map fun e =>
      (e.1, { e.2 with
        targetStoragePools :=
          e.2.targetStoragePools ++ [defaultPendingLVMClusterStoragePool path defaultLVMClusterVG]
        storagePools := e.2.storagePools ++ if e.1 = name then [defaultLVMClusterStoragePool] else [] })
    state := c.state.map fun e =>
      if (c.systems.get e.1).isSome then
        (e.1, { e.2 with availableDisks := e.2.availableDisks.filter fun d => formatDiskPath d.2 ≠ path })
      else e
    lvmCluster := true }

def InitConfig.shared : List Disk :=
  if c.state.length = 1 then sharedDisks c.state else c.sharedLUNs

def askLVMClusterPool (tries : ℕ) : Wizard Unit := do
  let l ← locals
  if l.config.shared = [] then pure ()
  else do
    assign fun l => { l with lvmPath := "" }
    askRetry .sharedPool
      (selectShared (l.config.shared.map fun disk => ⟨"", disk.type, formatDiskPath disk⟩)) tries
    assign fun l => { l with config := l.config.withLVM site.name l.lvmPath }

def askSharedPool (tries : ℕ) : Wizard Unit := do
  let l ← locals
  if l.config.hasRemotePool then pure ()
  else
    match l.config.existingSharedPool with
    | some pool => joinSharedPool pool
    | none =>
      let options := [sharedTrueNAS, sharedLVMCluster].filter fun driver =>
        l.config.state ≠ [] && l.config.state.all fun e => driver ∈ e.2.storageDrivers
      if options = [] then pure ()
      else do
        let choice ← choose (options ++ ["no"])
        if choice = sharedTrueNAS then askTrueNASPool site
        else if choice = sharedLVMCluster then askLVMClusterPool site tries
        else pure ()

/-! ### All of them -/

/-- A disk that every system sees is kept for clustered LVM. -/
def InitConfig.keepShared : InitConfig :=
  if 1 < c.state.length then
    let luns := sharedDisks c.state
    { c with
      sharedLUNs := luns
      state := c.state.map fun e =>
        (e.1, { e.2 with availableDisks := e.2.availableDisks.filter fun d =>
          !(luns.any fun lun => formatDiskPath d.2 = formatDiskPath lun) }) }
  else c

def askDisks (tries : ℕ) : Wizard Unit := do
  assign fun l => { l with config := l.config.keepShared }
  askLocalPool site tries
  askRemotePool site tries
  askSharedPool site tries

/-- The questions begin, with nothing planned for these systems and nothing asked. -/
def Asking.start (systems : List String) (state : OrdMap String SystemInformation) : Asking :=
  ⟨⟨systems.map fun name => (name, .empty), state, [], false⟩, [], [], [], [], ""⟩

def Asked.nothing : Asked := ⟨fun _ => [], fun _ => []⟩

end IncusCloud.Firecloud
