import Mathlib.Data.List.Basic

/-!
# The permission catalog

`acl/catalog.ts`: the privileges, named `<object>.<action>`, and the built-in roles, which are
fixed sets of privileges assigned on a path. A set of privileges is a list here: the code only
ever asks whether a privilege is in it, or whether it is empty.
-/

namespace IncusCloud.Acl

/-- What a privilege is about: the part of its name before the dot. -/
inductive Object
  | inst | placement | storage | network | image | project | backup | replication | k8s
  | node | cluster | tenant | acl | platform
  deriving DecidableEq

/-- The privileges of `PRIVILEGES`, `<object>.<action>` written in camel case. -/
inductive Privilege
  | instanceView | instanceConsole | instanceExec | instanceFiles | instancePower
  | instanceConfigure | instanceSnapshot | instanceCreate | instanceDelete | instanceMigrate
  | instanceRelocate
  | placementChoose
  | storageView | storageAllocate | storagePools
  | networkView | networkUse | networkManage
  | imageView | imageManage
  | projectView | projectConfigure
  | backupView | backupCreate | backupRestore | backupDelete | backupSchedule
  | replicationView | replicationManage
  | k8sView | k8sKubeconfig | k8sProvision | k8sDelete
  | nodeView | nodeMaintain | nodeProvision
  | clusterView | clusterConfigure
  | tenantView | tenantManage | tenantMembers | tenantQuota
  | aclView | aclManage
  | platformView | platformUsers | platformSettings | platformAudit
  deriving DecidableEq

namespace Privilege

def object : Privilege → Object
  | instanceView | instanceConsole | instanceExec | instanceFiles | instancePower
  | instanceConfigure | instanceSnapshot | instanceCreate | instanceDelete | instanceMigrate
  | instanceRelocate => .inst
  | placementChoose => .placement
  | storageView | storageAllocate | storagePools => .storage
  | networkView | networkUse | networkManage => .network
  | imageView | imageManage => .image
  | projectView | projectConfigure => .project
  | backupView | backupCreate | backupRestore | backupDelete | backupSchedule => .backup
  | replicationView | replicationManage => .replication
  | k8sView | k8sKubeconfig | k8sProvision | k8sDelete => .k8s
  | nodeView | nodeMaintain | nodeProvision => .node
  | clusterView | clusterConfigure => .cluster
  | tenantView | tenantManage | tenantMembers | tenantQuota => .tenant
  | aclView | aclManage => .acl
  | platformView | platformUsers | platformSettings | platformAudit => .platform

/-- Whether the privilege's action is `view`. -/
def isView : Privilege → Bool
  | instanceView | storageView | networkView | imageView | projectView | backupView
  | replicationView | k8sView | nodeView | clusterView | tenantView | aclView | platformView =>
    true
  | _ => false

end Privilege

open Privilege

/-- `PRIVILEGES`, in the source's order. -/
def allPrivileges : List Privilege :=
  [instanceView, instanceConsole, instanceExec, instanceFiles, instancePower, instanceConfigure,
    instanceSnapshot, instanceCreate, instanceDelete, instanceMigrate, instanceRelocate,
    placementChoose,
    storageView, storageAllocate, storagePools,
    networkView, networkUse, networkManage,
    imageView, imageManage,
    projectView, projectConfigure,
    backupView, backupCreate, backupRestore, backupDelete, backupSchedule,
    replicationView, replicationManage,
    k8sView, k8sKubeconfig, k8sProvision, k8sDelete,
    nodeView, nodeMaintain, nodeProvision,
    clusterView, clusterConfigure,
    tenantView, tenantManage, tenantMembers, tenantQuota,
    aclView, aclManage,
    platformView, platformUsers, platformSettings, platformAudit]

/-- The roles of `ROLE_IDS`. -/
inductive RoleId
  | administrator | operator | clusterOwner | groupOwner | unrestrictedUser | user | tenantAdmin
  | auditor | noAccess
  deriving DecidableEq

namespace RoleId

def text : RoleId → String
  | administrator => "administrator"
  | operator => "operator"
  | clusterOwner => "cluster-owner"
  | groupOwner => "group-owner"
  | unrestrictedUser => "unrestricted-user"
  | user => "user"
  | tenantAdmin => "tenant-admin"
  | auditor => "auditor"
  | noAccess => "no-access"

end RoleId

/-- `ROLE_IDS`, in the source's order. -/
def roleIds : List RoleId :=
  [.administrator, .operator, .clusterOwner, .groupOwner, .unrestrictedUser, .user, .tenantAdmin,
    .auditor, .noAccess]

/-- `isRoleId`, with the role it narrows the text to. -/
def isRoleId (s : String) : Option RoleId := roleIds.find? fun r => r.text = s

/-- `of(prefix)`: the privileges on one kind of object. -/
def ofObject (o : Object) : List Privilege := allPrivileges.filter fun p => p.object = o

/-- `VIEWS`: every `*.view`. -/
def views : List Privilege := allPrivileges.filter (·.isView)

def workload : List Privilege :=
  ofObject .inst ++ [placementChoose, storageView, storageAllocate] ++ ofObject .network ++
    ofObject .image ++ ofObject .project ++ ofObject .backup ++ ofObject .replication ++ ofObject .k8s

namespace RoleId

/-- `ROLES[role].privileges`. -/
def privileges : RoleId → List Privilege
  | administrator => allPrivileges
  | operator => allPrivileges.filter fun p => p ∉ [aclManage, platformUsers, platformSettings]
  | clusterOwner => workload ++ [storagePools] ++ ofObject .node ++ ofObject .cluster ++ ofObject .acl
  | groupOwner => workload ++ [nodeView, nodeMaintain, clusterView] ++ ofObject .acl
  | unrestrictedUser => workload ++ [clusterView, tenantView]
  | user =>
    [instanceCreate, storageView, storageAllocate, networkView, networkUse, imageView,
      projectView, k8sProvision, clusterView, tenantView]
  | tenantAdmin => workload ++ ofObject .tenant ++ ofObject .acl ++ [clusterView]
  | auditor => views ++ [platformAudit]
  | noAccess => []

/-- `ROLES[role].ownedOnly ?? []`: held only on what the subject owns. -/
def ownedOnly : RoleId → List Privilege
  | user => ofObject .inst ++ ofObject .backup ++ ofObject .k8s
  | _ => []

end RoleId

/-! ### What the catalog fixes -/

theorem mem_allPrivileges (p : Privilege) : p ∈ allPrivileges := by
  cases p <;> decide

theorem text_of_isRoleId {s : String} {r : RoleId} (h : isRoleId s = some r) : r.text = s := by
  have := List.find?_some h
  simpa using this

theorem platformUsers_mem_privileges {r : RoleId} :
    platformUsers ∈ r.privileges ↔ r = .administrator := by
  cases r <;> decide

theorem mem_administrator_privileges (p : Privilege) : p ∈ RoleId.administrator.privileges :=
  mem_allPrivileges p

end IncusCloud.Acl
