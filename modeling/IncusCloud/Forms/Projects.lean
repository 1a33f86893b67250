import IncusCloud.Forms.Payloads

/-!
# The payload of an edited project

`getProjectEditValues` and `getProjectPayload` of `util/projectEdit.tsx`, with
`util/projectConfigFields.tsx` and the payload functions of `pages/projects/forms`: the config of a
project as the form has it, and back. What the form shows beside the project (the storage pool and
the network of its default profile) is in no payload.
-/

namespace IncusCloud.Forms

open Lib

variable {J : Type}

/-- `LxdProject`. -/
structure Project (J : Type) where
  rest : OrdMap String J
  nodup : (rest.map (·.1)).Nodup
  config : Config

/-- `ProjectFormValues`, as far as a payload is made of them. -/
structure ProjectFormValues (J : Type) where
  name : Option J
  description : Option J
  restricted : Option Bool
  features_images : Option Bool
  features_profiles : Option Bool
  features_networks : Option Bool
  features_networks_zones : Option Bool
  features_storage_buckets : Option Bool
  features_storage_volumes : Option Bool
  limits_instances : Option Number
  limits_containers : Option Number
  limits_virtual_machines : Option Number
  limits_disk : Option String
  limits_networks : Option Number
  limits_cpu : Option Number
  limits_memory : Option String
  limits_processes : Option Number
  restrictions : Fields String String
  replica_mode : Option J
  replica_cluster : Option String

/-! ### Keys -/

/-- The fields of the restrictions, in the order in which `getProjectEditValues` reads them. -/
def restrictionFields : OrdMap String String :=
  [("restricted_cluster_groups", "restricted.cluster.groups"),
    ("restricted_cluster_target", "restricted.cluster.target"),
    ("restricted_virtual_machines_low_level", "restricted.virtual-machines.lowlevel"),
    ("restricted_virtual_machines_nesting", "restricted.virtual-machines.nesting"),
    ("restricted_containers_low_level", "restricted.containers.lowlevel"),
    ("restricted_containers_nesting", "restricted.containers.nesting"),
    ("restricted_containers_privilege", "restricted.containers.privilege"),
    ("restricted_container_interception", "restricted.containers.interception"),
    ("restrict_backups", "restricted.backups"), ("restrict_snapshots", "restricted.snapshots"),
    ("restricted_idmap_uid", "restricted.idmap.uid"), ("restricted_idmap_gid", "restricted.idmap.gid"),
    ("restricted_devices_disk", "restricted.devices.disk"),
    ("restricted_devices_disk_paths", "restricted.devices.disk.paths"),
    ("restricted_devices_gpu", "restricted.devices.gpu"),
    ("restricted_devices_infiniband", "restricted.devices.infiniband"),
    ("restricted_devices_nic", "restricted.devices.nic"),
    ("restricted_devices_pci", "restricted.devices.pci"),
    ("restricted_devices_unix_block", "restricted.devices.unix-block"),
    ("restricted_devices_unix_char", "restricted.devices.unix-char"),
    ("restricted_devices_unix_hotplug", "restricted.devices.unix-hotplug"),
    ("restricted_devices_usb", "restricted.devices.usb"),
    ("restricted_storage_pools_access", "restricted.storage-pools.access"),
    ("restricted_network_access", "restricted.networks.access"),
    ("restricted_network_subnets", "restricted.networks.subnets"),
    ("restricted_network_uplinks", "restricted.networks.uplinks"),
    ("restricted_network_zones", "restricted.networks.zones"),
    ("restricted_registries", "restricted.registries")]

def projectConfigFormFieldsToPayload : OrdMap String String :=
  [("restricted_cluster_groups", "restricted.cluster.groups"),
    ("restricted_cluster_target", "restricted.cluster.target"),
    ("restricted_devices_disk", "restricted.devices.disk"),
    ("restricted_devices_disk_paths", "restricted.devices.disk.paths"),
    ("restricted_devices_gpu", "restricted.devices.gpu"),
    ("restricted_devices_infiniband", "restricted.devices.infiniband"),
    ("restricted_devices_nic", "restricted.devices.nic"),
    ("restricted_devices_pci", "restricted.devices.pci"),
    ("restricted_devices_unix_block", "restricted.devices.unix-block"),
    ("restricted_devices_unix_char", "restricted.devices.unix-char"),
    ("restricted_devices_unix_hotplug", "restricted.devices.unix-hotplug"),
    ("restricted_devices_usb", "restricted.devices.usb"),
    ("restricted_storage_pools_access", "restricted.storage-pools.access"),
    ("restricted_virtual_machines_low_level", "restricted.virtual-machines.lowlevel"),
    ("restricted_virtual_machines_nesting", "restricted.virtual-machines.nesting"),
    ("restricted_containers_low_level", "restricted.containers.lowlevel"),
    ("restricted_containers_nesting", "restricted.containers.nesting"),
    ("restricted_containers_privilege", "restricted.containers.privilege"),
    ("restricted_container_interception", "restricted.containers.interception"),
    ("restrict_backups", "restricted.backups"), ("restrict_snapshots", "restricted.snapshots"),
    ("restricted_idmap_uid", "restricted.idmap.uid"), ("restricted_idmap_gid", "restricted.idmap.gid"),
    ("restricted_network_access", "restricted.networks.access"),
    ("restricted_network_subnets", "restricted.networks.subnets"),
    ("restricted_network_uplinks", "restricted.networks.uplinks"),
    ("restricted_network_zones", "restricted.networks.zones"),
    ("restricted_registries", "restricted.registries"),
    ("restricted", "restricted"), ("features_images", "features.images"),
    ("features_profiles", "features.profiles"),
    ("features_networks", "features.networks"), ("features_networks_zones", "features.networks.zones"),
    ("features_storage_buckets", "features.storage.buckets"),
    ("features_storage_volumes", "features.storage.volumes"),
    ("limits_instances", "limits.instances"), ("limits_containers", "limits.containers"),
    ("limits_virtual_machines", "limits.virtual-machines"), ("limits_disk", "limits.disk"),
    ("limits_networks", "limits.networks"), ("limits_cpu", "limits.cpu"), ("limits_memory", "limits.memory"),
    ("limits_processes", "limits.processes"), ("replica_cluster", "replica.cluster")]

def getProjectKey (formField : String) : String := (projectConfigFormFieldsToPayload.get formField).getD ""

def getProjectConfigKeys : List String := projectConfigFormFieldsToPayload.map (·.2)

/-! ### From the config -/

/-- `config[key] === "true"`. -/
def isTrue (config : Config) (key : String) : Option Bool := some (config.get key = some "true")

variable (project : Project J)

def isProjectWithProfiles : Option Bool := isTrue project.config "features.profiles"

def getProjectEditValues : ProjectFormValues J where
  name := project.rest.get "name"
  description := project.rest.get "description"
  restricted := isTrue project.config "restricted"
  features_images := isTrue project.config "features.images"
  features_profiles := isProjectWithProfiles project
  features_networks := isTrue project.config "features.networks"
  features_networks_zones := isTrue project.config "features.networks.zones"
  features_storage_buckets := isTrue project.config "features.storage.buckets"
  features_storage_volumes := isTrue project.config "features.storage.volumes"
  limits_instances := parseNumber (project.config.get "limits.instances")
  limits_containers := parseNumber (project.config.get "limits.containers")
  limits_virtual_machines := parseNumber (project.config.get "limits.virtual-machines")
  limits_disk := project.config.get "limits.disk"
  limits_networks := parseNumber (project.config.get "limits.networks")
  limits_cpu := parseNumber (project.config.get "limits.cpu")
  limits_memory := (project.config.get "limits.memory").filter (· ≠ "")
  limits_processes := parseNumber (project.config.get "limits.processes")
  restrictions := restrictionFields.map fun e => (e.1, project.config.get e.2)
  replica_mode := project.rest.get "replica_mode"
  replica_cluster := project.config.get "replica.cluster"

/-! ### To the payload -/

variable (values : ProjectFormValues J)

def projectDetailPayload : Fields String J :=
  [("name", values.name), ("description", values.description)]

def boolToPayload (value : Option Bool) : Option String := value.map fun v => if v then "true" else "false"

def projectDetailRestrictionPayload : Fields String String :=
  [(getProjectKey "restricted", boolToPayload values.restricted),
    (getProjectKey "features_images", boolToPayload values.features_images),
    (getProjectKey "features_profiles", boolToPayload values.features_profiles),
    (getProjectKey "features_networks", boolToPayload values.features_networks),
    (getProjectKey "features_networks_zones", boolToPayload values.features_networks_zones),
    (getProjectKey "features_storage_buckets", boolToPayload values.features_storage_buckets),
    (getProjectKey "features_storage_volumes", boolToPayload values.features_storage_volumes)]

namespace ProjectFormValues

def resourceLimitsPayload : Fields String String :=
  [(getProjectKey "limits_instances", values.limits_instances.map numberText),
    (getProjectKey "limits_containers", values.limits_containers.map numberText),
    (getProjectKey "limits_virtual_machines", values.limits_virtual_machines.map numberText),
    (getProjectKey "limits_disk", values.limits_disk),
    (getProjectKey "limits_networks", values.limits_networks.map numberText),
    (getProjectKey "limits_cpu", values.limits_cpu.map numberText),
    (getProjectKey "limits_memory", values.limits_memory),
    (getProjectKey "limits_processes", values.limits_processes.map numberText)]

def texts (formFields : List String) : Fields String String :=
  formFields.map fun f => (getProjectKey f, values.restrictions.read f)

end ProjectFormValues

def clusterRestrictionPayload : Fields String String :=
  values.texts ["restricted_cluster_groups", "restricted_cluster_target"]

def instanceRestrictionPayload : Fields String String :=
  values.texts
    ["restricted_virtual_machines_low_level", "restricted_virtual_machines_nesting",
      "restricted_containers_low_level",
      "restricted_containers_nesting", "restricted_containers_privilege", "restricted_container_interception",
      "restrict_backups", "restrict_snapshots", "restricted_idmap_uid", "restricted_idmap_gid"]

def deviceUsageRestrictionPayload : Fields String String :=
  values.texts
    ["restricted_devices_disk", "restricted_devices_disk_paths", "restricted_devices_gpu",
      "restricted_devices_infiniband", "restricted_devices_nic", "restricted_devices_pci",
      "restricted_devices_unix_block", "restricted_devices_unix_char", "restricted_devices_unix_hotplug",
      "restricted_devices_usb", "restricted_storage_pools_access"]

def networkRestrictionPayload : Fields String String :=
  values.texts
    ["restricted_network_access", "restricted_network_subnets", "restricted_network_uplinks",
      "restricted_network_zones"]

def imageRestrictionPayload : Fields String String :=
  values.texts ["restricted_registries"]

def replicaPayload : Fields String String :=
  match values.replica_cluster with
  | some cluster => if cluster = "" then [] else [("replica.cluster", some cluster)]
  | none => []

structure ProjectPayload (J : Type) where
  rest : Fields String J
  config : Fields String String

def getProjectPayload (values : ProjectFormValues J) : ProjectPayload J where
  rest := Fields.spread (projectDetailPayload values)
    (Fields.ofMap (getUnhandledKeyValues project.rest ["name", "description", "config", "replica_mode"]))
  config := Fields.spreads
    ([projectDetailRestrictionPayload values, values.resourceLimitsPayload] ++
      (if values.restricted = some true then
        [clusterRestrictionPayload values, instanceRestrictionPayload values,
          deviceUsageRestrictionPayload values,
          networkRestrictionPayload values, imageRestrictionPayload values]
      else []) ++
      [replicaPayload values,
        Fields.ofMap (getUnhandledKeyValues project.config.entries getProjectConfigKeys)])

end IncusCloud.Forms
