import IncusCloud.Lib.OrdMap
import IncusCloud.Lib.Text
import Mathlib.Data.List.Sort

/-!
# Disks and the pools they go to

What `firecloud init` plans for each system: the local pool on ZFS, Ceph's disks and the shared pool
(`service/lxd_config.go`), the paths of disks (`service/system_information.go`) and loop files
(`cmd/firecloud/storage_options.go`). A Go map is a list of pairs.
-/

namespace IncusCloud.Firecloud

open Lib

/-! ### Disks -/

structure Disk where
  id : String
  type : String
  deviceID : String
  devicePath : String
  deriving DecidableEq

def formatDiskPath (disk : Disk) : String :=
  if disk.deviceID ≠ "" then "/dev/disk/by-id/" ++ disk.deviceID
  else if disk.devicePath ≠ "" then "/dev/disk/by-path/" ++ disk.devicePath
  else "/dev/" ++ disk.id

/-- Marks loop-file rows in the disk selection tables. -/
def diskTypeLoop : String := "loop"

def cephLoopSpec (sizeGiB : ℕ) : String := "loop," ++ (toString sizeGiB ++ "G,1")

/-- Tells MicroCeph loop specs apart from device paths. -/
def isLoopSpec (path : String) : Bool := "loop,".toList.isPrefixOf path.toList

def localLoopSpec (sizeGiB : ℕ) : String := "loop:" ++ (toString sizeGiB ++ "GiB")

/-- The Incus size of a `localLoopSpec`. -/
def localLoopSize (path : String) : Option String :=
  if "loop:".toList.isPrefixOf path.toList then some (String.ofList (path.toList.drop 5)) else none

def loopDisk (spec : String) : Disk := ⟨spec, diskTypeLoop, "", ""⟩

def devicePath (disk : Disk) : String := if disk.type = diskTypeLoop then disk.id else formatDiskPath disk

/-! ### What is planned for a system -/

structure StoragePoolsPost where
  name : String
  driver : String
  config : OrdMap String String

structure ClusterMemberConfigKey where
  entity : String
  name : String
  key : String
  value : String

structure DisksPost where
  path : String
  wipe : Bool
  encrypt : Bool

structure InitSystem where
  microCephDisks : List DisksPost
  targetStoragePools : List StoragePoolsPost
  storagePools : List StoragePoolsPost
  joinConfig : List ClusterMemberConfigKey

def InitSystem.empty : InitSystem := ⟨[], [], [], []⟩

structure StoragePool where
  name : String
  driver : String
  status : String
  deriving DecidableEq

structure SystemInformation where
  availableDisks : OrdMap String Disk
  existingLocalPool : Option StoragePool
  existingRemotePool : Option StoragePool
  existingRemoteFSPool : Option StoragePool
  storageDrivers : List String
  cephClustered : Bool
  deriving DecidableEq

namespace SystemInformation

def supportsPool (driver : String) : Option StoragePool → Bool × Bool
  | none => (false, true)
  | some pool => (true, pool.driver = driver && pool.status = "Created")

def supportsLocalPool (s : SystemInformation) : Bool × Bool := supportsPool "zfs" s.existingLocalPool
def supportsRemotePool (s : SystemInformation) : Bool × Bool := supportsPool "ceph" s.existingRemotePool
def supportsRemoteFSPool (s : SystemInformation) : Bool × Bool := supportsPool "cephfs" s.existingRemoteFSPool

end SystemInformation

/-! ### The pools' configuration -/

def defaultZFSPool : String := "local"
def defaultCephPool : String := "remote"
def defaultCephFSPool : String := "remote-fs"
def defaultCephFSOSDPool : String := "lxd_cephfs"
def defaultCephOSDPool : String := "lxd_remote"
def defaultCephFSDataOSDPool : String := "lxd_cephfs_data"
def defaultCephFSMetaOSDPool : String := "lxd_cephfs_meta"
/-- The volume group Firecloud creates on a shared disk. -/
def defaultLVMClusterVG : String := "incus"

def poolKey (name key value : String) : ClusterMemberConfigKey := ⟨"storage-pool", name, key, value⟩

def defaultPendingZFSStoragePool (wipe : Bool) (path : String) : StoragePoolsPost :=
  ⟨defaultZFSPool, "zfs", ("source", path) :: if wipe then [("source.wipe", "true")] else []⟩

def defaultPendingLoopZFSStoragePool (size : String) : StoragePoolsPost :=
  ⟨defaultZFSPool, "zfs", [("size", size)]⟩

def defaultLoopZFSStoragePoolJoinConfig (size : String) : List ClusterMemberConfigKey :=
  [poolKey defaultZFSPool "size" size]

def defaultZFSStoragePool : StoragePoolsPost := ⟨defaultZFSPool, "zfs", []⟩

def defaultZFSStoragePoolJoinConfig (wipe : Bool) (path : String) : List ClusterMemberConfigKey :=
  poolKey defaultZFSPool "source" path :: if wipe then [poolKey defaultZFSPool "source.wipe" "true"] else []

section

-- The extension `storage_remote_drop_source`.
variable (dropSource : Bool)

def defaultPendingCephStoragePool : StoragePoolsPost :=
  ⟨defaultCephPool, "ceph", if dropSource then [] else [("source", defaultCephOSDPool)]⟩

def defaultPendingCephFSStoragePool : StoragePoolsPost :=
  ⟨defaultCephFSPool, "cephfs", if dropSource then [] else [("source", defaultCephFSOSDPool)]⟩

def defaultCephFSStoragePoolJoinConfig : List ClusterMemberConfigKey :=
  if dropSource then [] else [poolKey defaultCephFSPool "source" defaultCephFSOSDPool]

end

/-- With the extension `storage_ceph_use_rbd_defaults` the Ceph cluster's defaults are used. -/
def defaultCephStoragePool (rbdDefaults : Bool) : StoragePoolsPost :=
  ⟨defaultCephPool, "ceph", [("ceph.rbd.du", "false"), ("ceph.osd.pool_name", defaultCephOSDPool)] ++
    if rbdDefaults then []
    else [("ceph.rbd.features", "layering,striping,exclusive-lock,object-map,fast-diff,deep-flatten")]⟩

def defaultCephStoragePoolJoinConfig : ClusterMemberConfigKey :=
  poolKey defaultCephPool "source" defaultCephOSDPool

def defaultCephFSStoragePool : StoragePoolsPost :=
  ⟨defaultCephFSPool, "cephfs", [("cephfs.create_missing", "true"), ("cephfs.meta_pool", defaultCephFSMetaOSDPool),
    ("cephfs.data_pool", defaultCephFSDataOSDPool), ("cephfs.path", defaultCephFSOSDPool)]⟩

structure TrueNASConfig where
  host : String
  apiKey : String
  dataset : String
  allowInsecure : Bool

def defaultPendingTrueNASStoragePool (cfg : TrueNASConfig) : StoragePoolsPost :=
  ⟨defaultCephPool, "truenas", [("source", cfg.dataset)]⟩

def defaultTrueNASStoragePool (cfg : TrueNASConfig) : StoragePoolsPost :=
  ⟨defaultCephPool, "truenas", [("truenas.host", cfg.host), ("truenas.api_key", cfg.apiKey)] ++
    if cfg.allowInsecure then [("truenas.allow_insecure", "true")] else []⟩

def defaultPendingLVMClusterStoragePool (source vgName : String) : StoragePoolsPost :=
  ⟨defaultCephPool, "lvmcluster", [("source", source), ("lvm.vg_name", vgName)]⟩

def defaultLVMClusterStoragePool : StoragePoolsPost := ⟨defaultCephPool, "lvmcluster", []⟩

def sharedPoolJoinConfig (memberConfig : OrdMap String String) : List ClusterMemberConfigKey :=
  ["source", "lvm.vg_name"].filterMap fun key =>
    let value := (memberConfig.get key).getD ""
    if value = "" then none else some (poolKey defaultCephPool key value)

/-! ### What is planned, read back -/

namespace InitSystem

def localDisk (pool : StoragePoolsPost) : Option (String × Bool) :=
  if pool.name = defaultZFSPool then
    (pool.config.get "source").map fun path => (path, pool.config.get "source.wipe" = some "true")
  else none

def localDisks (s : InitSystem) : List (String × Bool) :=
  s.targetStoragePools.filterMap localDisk ++
    (s.joinConfig.filter fun k => k.name = defaultZFSPool && k.key = "source").map fun k =>
      (k.value, s.joinConfig.any fun k => k.name = defaultZFSPool && k.key = "source.wipe" && k.value = "true")

def lvmDisks (s : InitSystem) : List String :=
  (s.targetStoragePools.filter fun pool => pool.driver = "lvmcluster").filterMap fun pool => pool.config.get "source"

end InitSystem

end IncusCloud.Firecloud
