import IncusCloud.Firecloud.Disks

/-!
# The storage part of a preseed

`Preseed.validate` and the storage part of `Preseed.Parse` (`cmd/firecloud/preseed.go`): disks that
are given by their paths, the Ceph and local filters, and the checks of what they found. Where the
source ranges over a map, the order is given. The checks and fields of networks and sessions are
left out.
-/

namespace IncusCloud.Firecloud

open Lib

/-! ### Preseeds -/

structure DirectStorage where
  path : String := ""
  wipe : Bool := false
  encrypt : Bool := false
  deriving DecidableEq

structure InitStorage where
  localDisk : DirectStorage := {}
  ceph : List DirectStorage := []

structure System where
  name : String
  storage : InitStorage

structure DiskFilter where
  find : String
  findMin : ℤ
  findMax : ℤ
  wipe : Bool := false
  encrypt : Bool := false

structure StorageFilter where
  localDisks : List DiskFilter
  ceph : List DiskFilter

structure Preseed where
  systems : List System
  cephFS : Bool
  storage : StorageFilter

/-! ### Validation -/

def validateNames : List System → List String → Except String Unit
  | [], _ => .ok ()
  | system :: systems, systemNames =>
    if system.name = "" then .error "Missing system name"
    else if system.name ∈ systemNames then .error ("Duplicate system name \"" ++ system.name ++ "\"")
    else validateNames systems (systemNames ++ [system.name])

def validateCephFilter (filter : DiskFilter) : Except String Unit :=
  if filter.find = "" then .error "Received empty remote disk filter"
  else if 0 < filter.findMax ∧ filter.findMax < filter.findMin then
    .error "Invalid remote storage filter constraints"
  else if filter.findMin < 1 then .error "Remote storage filter cannot be defined with find_min less than 1"
  else .ok ()

def validateLocalFilter (filter : DiskFilter) : Except String DiskFilter :=
  if filter.find = "" then .error "Received empty local disk filter"
  else if 0 < filter.findMax ∧ filter.findMax < filter.findMin then
    .error "Invalid local storage filter constraints"
  else .ok (if filter.findMin = 0 then { filter with findMin := 1 } else filter)

namespace Preseed

def validateSystems (p : Preseed) (name : String) (bootstrap : Bool) : Except String Unit :=
  let directLocalCount := (p.systems.filter fun system => system.storage.localDisk.path ≠ "").length
  if p.systems = [] then .error "No systems given"
  else do
    validateNames p.systems []
    if bootstrap && !p.systems.any fun system => system.name = name then
      .error "Local Firecloud must be included in the list of systems when initializing"
    else if 0 < directLocalCount ∧ directLocalCount < p.systems.length ∧ p.storage.localDisks = [] then
      .error "Some systems are missing local storage disks"
    else .ok ()

def validate (p : Preseed) (name : String) (bootstrap : Bool) : Except String Preseed := do
  p.validateSystems name bootstrap
  p.storage.ceph.forM validateCephFilter
  let localFilters ← p.storage.localDisks.mapM validateLocalFilter
  pure { p with storage.localDisks := localFilters }

end Preseed

/-! ### Machines -/

structure ResourcesStorageDisk extends Disk where
  partitions : ℕ

structure Machines where
  name : String
  bootstrap : Bool
  systems : List String
  resources : String → List ResourcesStorageDisk
  /-- `filter.Match`, of a text and a system's disk: filters read fields of a disk that nothing else
  does. -/
  finds : String → String → Disk → Bool
  dropSource : Bool
  rbdDefaults : Bool
  hasCephFS : Bool
  nodup : systems.Nodup
  ids : ∀ peer, ((resources peer).map (·.id)).Nodup
  self : bootstrap = true → name ∈ systems

namespace Machines

/-- `disks`: those without partitions. -/
def disks (m : Machines) (peer : String) : List Disk :=
  ((m.resources peer).filter fun disk => disk.partitions = 0).map (·.toDisk)

end Machines

def DiskFilter.matching (f : DiskFilter) (m : Machines) (peer : String) (disks : List Disk) : List Disk :=
  disks.filter (m.finds f.find peer)

/-! ### Parsing -/

/-- What the storage part has found so far; of the maps of direct disks only the sizes are read. -/
structure Storage where
  systems : OrdMap String InitSystem
  directCephMatches : ℕ
  directZFSMatches : ℕ
  cephMatches : OrdMap String ℕ
  zfsMatches : OrdMap String ℕ
  zfsMachines : List String

/-- `m[k] = m[k] + 1`. -/
def increment (m : OrdMap String ℕ) (k : String) : OrdMap String ℕ := m.set k ((m.get k).getD 0 + 1)

section

variable (p : Preseed) (m : Machines)

/-- `directLocal` and `directCeph`. -/
def Preseed.direct (peer : String) : InitStorage :=
  p.systems.foldl (fun storage system => if system.name = peer then system.storage else storage) {}

def addLocal (peer path : String) (wipe : Bool) (system : InitSystem) : InitSystem :=
  if m.bootstrap then
    { system with
      targetStoragePools := system.targetStoragePools ++ [defaultPendingZFSStoragePool wipe path]
      storagePools := system.storagePools ++ if m.name = peer then [defaultZFSStoragePool] else [] }
  else { system with joinConfig := system.joinConfig ++ defaultZFSStoragePoolJoinConfig wipe path }

def directSystem (peer : String) (system : InitSystem) : InitSystem :=
  let direct := p.direct peer
  let system :=
    if direct.localDisk.path ≠ "" then addLocal m peer direct.localDisk.path direct.localDisk.wipe system
    else system
  { system with microCephDisks :=
    system.microCephDisks ++ direct.ceph.map fun disk => ⟨disk.path, disk.wipe, disk.encrypt⟩ }

def addDirect (st : Storage) (peer : String) : Storage :=
  let system := directSystem p m peer ((st.systems.get peer).getD .empty)
  { st with
    systems := st.systems.set peer system
    directCephMatches := st.directCephMatches + if 0 < system.microCephDisks.length then 1 else 0
    directZFSMatches := st.directZFSMatches + if (p.direct peer).localDisk.path ≠ "" then 1 else 0 }

def Preseed.checkFilterZFS : List String :=
  (p.systems.filter fun system => system.storage.localDisk = {}).map (·.name)

def Preseed.checkFilterCeph : List String :=
  (p.systems.filter fun system => system.storage.ceph = []).map (·.name)

def Preseed.checkFilters : Except String Unit :=
  if p.checkFilterCeph = [] ∧ p.storage.ceph ≠ [] then
    .error "Ceph disk filter cannot be used. All systems have explicitly specified disks"
  else if p.checkFilterZFS = [] ∧ p.storage.localDisks ≠ [] then
    .error "Local disk filter cannot be used. All systems have explicitly specified a disk"
  else .ok ()

structure CephFiltering where
  system : InitSystem
  disks : List Disk
  addedCephPool : Bool
  cephMatches : OrdMap String ℕ

def addCephPool (peer : String) (system : InitSystem) : InitSystem :=
  if m.bootstrap then
    { system with
      targetStoragePools := system.targetStoragePools ++ [defaultPendingCephStoragePool m.dropSource]
      storagePools := system.storagePools ++ if m.name = peer then [defaultCephStoragePool m.rbdDefaults] else [] }
  else system

def addCephDisk (peer : String) (f : DiskFilter) (v : CephFiltering) (disk : Disk) : CephFiltering :=
  let system := { v.system with microCephDisks := v.system.microCephDisks ++ [⟨formatDiskPath disk, f.wipe, f.encrypt⟩] }
  { v with
    system := if v.addedCephPool then system else addCephPool m peer system
    addedCephPool := true
    cephMatches := increment v.cephMatches f.find }

def addCephFilter (peer : String) (v : CephFiltering) (f : DiskFilter) : CephFiltering :=
  let matched := f.matching m peer v.disks
  let v' := matched.foldl (addCephDisk m peer f) v
  { v' with disks :=
    if 0 < matched.length then v.disks.filter fun disk => !(matched.any fun found => disk.id = found.id)
    else v.disks }

/-- The step for a system of the loop over `allResourcesCeph`. -/
def addCeph (st : Storage) (peer : String) : Storage :=
  let v := p.storage.ceph.foldl (addCephFilter m peer)
    ⟨(st.systems.get peer).getD .empty, m.disks peer, false, st.cephMatches⟩
  { st with systems := st.systems.set peer v.system, cephMatches := v.cephMatches }

structure LocalFiltering where
  system : InitSystem
  zfsMatches : OrdMap String ℕ
  zfsMachines : List String

def addLocalFilters (peer : String) : List DiskFilter → LocalFiltering → LocalFiltering
  | [], v => v
  | f :: filters, v =>
    if v.zfsMachines.length = m.systems.length then v
    else
      match f.matching m peer (m.disks peer) with
      | [] => addLocalFilters peer filters v
      | disk :: _ =>
        addLocalFilters peer filters
          { system := addLocal m peer (formatDiskPath disk) f.wipe v.system
            zfsMatches := increment v.zfsMatches f.find
            zfsMachines := if peer ∈ v.zfsMachines then v.zfsMachines else v.zfsMachines ++ [peer] }

/-- The step for a system of the loop over `allResourcesZFS`. -/
def addZFS (st : Storage) (peer : String) : Storage :=
  let v := addLocalFilters m peer p.storage.localDisks
    ⟨(st.systems.get peer).getD .empty, st.zfsMatches, st.zfsMachines⟩
  { st with
    systems := st.systems.set peer v.system
    zfsMatches := v.zfsMatches
    zfsMachines := v.zfsMachines }

def checkFilter (found : ℕ) (f : DiskFilter) : Except String Unit :=
  if (found : ℤ) < f.findMin then .error ("Failed to find enough disks for filter \"" ++ f.find ++ "\"")
  else if (found : ℤ) > f.findMax ∧ f.findMax > 0 then .error ("Found too many disks for filter \"" ++ f.find ++ "\"")
  else .ok ()

def checkMatches (cephFound zfsFound : String → ℕ) (machines : ℕ) : Except String Unit := do
  p.storage.ceph.forM fun f => checkFilter (cephFound f.find) f
  p.storage.localDisks.forM fun f => checkFilter (zfsFound f.find) f
  if m.bootstrap && 0 < machines && machines < m.systems.length then
    .error "Failed to find at least 1 disk on each machine for local storage pool configuration"
  else .ok ()

/-- Members that do not contribute disks still require the Ceph pool. -/
def withCephPool (peer : String) (system : InitSystem) : InitSystem :=
  { system with
    targetStoragePools := system.targetStoragePools ++
      if !(system.targetStoragePools.any fun pool => pool.name = defaultCephPool) && m.bootstrap then
        [defaultPendingCephStoragePool m.dropSource]
      else []
    storagePools := system.storagePools ++
      if !(system.storagePools.any fun pool => pool.name = defaultCephPool) && m.bootstrap && m.name = peer then
        [defaultCephStoragePool m.rbdDefaults]
      else [] }

def withCephFSPool (peer : String) (system : InitSystem) : InitSystem :=
  if m.bootstrap then
    { system with
      targetStoragePools := system.targetStoragePools ++ [defaultPendingCephFSStoragePool m.dropSource]
      storagePools := system.storagePools ++ if m.name = peer then [defaultCephFSStoragePool] else [] }
  else { system with joinConfig := system.joinConfig ++ defaultCephFSStoragePoolJoinConfig m.dropSource }

def withSharedPools (hasCeph : Bool) (peer : String) (system : InitSystem) : InitSystem :=
  let system := if hasCeph then withCephPool m peer system else system
  if (hasCeph && p.cephFS) || m.hasCephFS then withCephFSPool m peer system else system

structure Orders where
  /-- `c.systems`, of the loop over the direct disks. -/
  direct : List String
  ceph : List String
  zfs : List String

def Machines.start : Storage := ⟨m.systems.map fun peer => (peer, .empty), 0, 0, [], [], []⟩

/-- The storage part of `Parse`. -/
def Preseed.parse (o : Orders) : Except String (OrdMap String InitSystem) := do
  let st := o.direct.foldl (addDirect p m) m.start
  p.checkFilters
  let st := o.ceph.foldl (addCeph p m) st
  let st := o.zfs.foldl (addZFS p m) st
  checkMatches p m (fun find => (st.cephMatches.get find).getD 0)
    (fun find => (st.zfsMatches.get find).getD 0) (st.zfsMachines.length + st.directZFSMatches)
  let hasCeph : Bool := 0 < st.cephMatches.length + st.directCephMatches
  pure (st.systems.map fun e => (e.1, withSharedPools p m hasCeph e.1 e.2))

def filteredCeph : List String := m.systems.filter (· ∈ p.checkFilterCeph)
def filteredZFS : List String := m.systems.filter (· ∈ p.checkFilterZFS)

structure Orders.Possible (o : Orders) : Prop where
  direct : o.direct.Perm m.systems
  ceph : o.ceph.Perm (filteredCeph p m)
  zfs : o.zfs.Perm (filteredZFS p m)

end

end IncusCloud.Firecloud
