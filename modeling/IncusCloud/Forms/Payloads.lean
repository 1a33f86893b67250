import IncusCloud.Forms.Devices

/-!
# The payload of an edited instance or profile

`getInstanceEditValues`, `getProfileEditValues`, `getInstancePayload` and `getProfilePayload` of
`util/instanceAndProfilePayloads.tsx`, with `util/instanceConfigFields.tsx`, `parseSshKeys` and the
lists of user and credential properties: the config of an instance or a profile as the form has it,
and back. Of the other top-level keys it matters which are passed on, not what they are.
-/

namespace IncusCloud.Forms

open Lib
open Fields (spread ofMap spreads)

def placementGroupKey : String := "user.placement.group"

/-- The config of an instance or a profile: each key stands once. -/
structure Config where
  entries : OrdMap String String
  nodup : (entries.map (·.1)).Nodup

/-- `config[k]`. -/
def Config.get (c : Config) (k : String) : Option String := OrdMap.get c.entries k

/-- `LxdInstance` or `LxdProfile`. -/
structure Item (J : Type) where
  /-- The top-level keys but `config` and `devices`. -/
  rest : OrdMap String J
  nodup : (rest.map (·.1)).Nodup
  config : Config
  devices : OrdMap String Device

structure SshKey where
  name : String
  user : String
  fingerprint : Option String

/-- `EditInstanceFormValues` or `EditProfileFormValues`, as far as a payload is made of them. -/
structure EditValues (J : Type) where
  name : Option J
  description : Option J
  instanceType : Option J
  profiles : Option J
  devices : List FormDevice
  limits_cpu : Option CpuLimit
  limits_memory : Option MemoryLimit
  limits_disk_priority : Option Number
  limits_processes : Option Number
  security_idmap_size : Option Number
  fields : Fields String String
  cloud_init_ssh_keys : List SshKey
  userProperties : List (String × String)
  credentialProperties : List (String × String)

/-! ### Keys -/

def instanceConfigFormFieldsToPayload : OrdMap String String :=
  [("rootStorage", ""), ("limits_cpu", "limits.cpu"), ("limits_memory", "limits.memory"),
    ("limits_memory_swap", "limits.memory.swap"), ("limits_disk_priority", "limits.disk.priority"),
    ("limits_processes", "limits.processes"), ("limits_cpu_allowance", "limits.cpu.allowance"),
    ("limits_cpu_nodes", "limits.cpu.nodes"), ("limits_cpu_priority", "limits.cpu.priority"),
    ("limits_hugepages_1GB", "limits.hugepages.1GB"), ("limits_hugepages_1MB", "limits.hugepages.1MB"),
    ("limits_hugepages_2MB", "limits.hugepages.2MB"), ("limits_hugepages_64KB", "limits.hugepages.64KB"),
    ("limits_memory_enforce", "limits.memory.enforce"), ("limits_memory_hotplug", "limits.memory.hotplug"),
    ("limits_memory_hugepages", "limits.memory.hugepages"),
    ("limits_memory_oom_priority", "limits.memory.oom_priority"),
    ("limits_memory_swap_priority", "limits.memory.swap.priority"), ("placement_group", placementGroupKey),
    ("security_privileged", "security.privileged"), ("security_nesting", "security.nesting"),
    ("security_protection_delete", "security.protection.delete"),
    ("security_protection_shift", "security.protection.shift"),
    ("security_idmap_base", "security.idmap.base"),
    ("security_idmap_size", "security.idmap.size"), ("security_idmap_isolated", "security.idmap.isolated"),
    ("security_devlxd", "security.guestapi"), ("security_devlxd_images", "security.guestapi.images"),
    ("security_secureboot", "security.secureboot"), ("security_csm", "security.csm"),
    ("security_iommu", "security.iommu"), ("security_sev", "security.sev"),
    ("security_sev_policy_es", "security.sev.policy.es"),
    ("security_agent_metrics", "security.agent.metrics"),
    ("agent_nic_config", "agent.nic_config"), ("security_protection_start", "security.protection.start"),
    ("security_bpffs_delegate_attachs", "security.bpffs.delegate_attachs"),
    ("security_bpffs_delegate_cmds", "security.bpffs.delegate_cmds"),
    ("security_bpffs_delegate_maps", "security.bpffs.delegate_maps"),
    ("security_bpffs_delegate_progs", "security.bpffs.delegate_progs"),
    ("security_bpffs_path", "security.bpffs.path"), ("security_selinux_domain", "security.selinux.domain"),
    ("security_tags", "security.tags"), ("security_selinux_label_rootfs", "security.selinux.label_rootfs"),
    ("security_selinux_level", "security.selinux.level"), ("security_selinux_type", "security.selinux.type"),
    ("security_sev_session_data", "security.sev.session.data"),
    ("security_sev_session_dh", "security.sev.session.dh"),
    ("security_syscalls_allow", "security.syscalls.allow"),
    ("security_syscalls_deny", "security.syscalls.deny"),
    ("security_syscalls_deny_compat", "security.syscalls.deny_compat"),
    ("security_syscalls_deny_default", "security.syscalls.deny_default"),
    ("security_syscalls_intercept_bpf", "security.syscalls.intercept.bpf"),
    ("security_syscalls_intercept_bpf_devices", "security.syscalls.intercept.bpf.devices"),
    ("security_syscalls_intercept_mknod", "security.syscalls.intercept.mknod"),
    ("security_syscalls_intercept_mount", "security.syscalls.intercept.mount"),
    ("security_syscalls_intercept_mount_allowed", "security.syscalls.intercept.mount.allowed"),
    ("security_syscalls_intercept_mount_fuse", "security.syscalls.intercept.mount.fuse"),
    ("security_syscalls_intercept_mount_shift", "security.syscalls.intercept.mount.shift"),
    ("security_syscalls_intercept_sched_setscheduler", "security.syscalls.intercept.sched_setscheduler"),
    ("security_syscalls_intercept_setxattr", "security.syscalls.intercept.setxattr"),
    ("security_syscalls_intercept_sysinfo", "security.syscalls.intercept.sysinfo"),
    ("snapshots_pattern", "snapshots.pattern"), ("snapshots_expiry", "snapshots.expiry"),
    ("snapshots_expiry_manual", "snapshots.expiry.manual"), ("snapshots_schedule", "snapshots.schedule"),
    ("snapshots_schedule_stopped", "snapshots.schedule.stopped"),
    ("migration_stateful", "migration.stateful"),
    ("migration_incremental_memory", "migration.incremental.memory"),
    ("migration_incremental_memory_goal", "migration.incremental.memory.goal"),
    ("migration_incremental_memory_iterations", "migration.incremental.memory.iterations"),
    ("cluster_evacuate", "cluster.evacuate"), ("nvidia_runtime", "nvidia.runtime"),
    ("nvidia_driver_capabilities", "nvidia.driver.capabilities"),
    ("nvidia_require_cuda", "nvidia.require.cuda"),
    ("nvidia_require_driver", "nvidia.require.driver"), ("oci_entrypoint", "oci.entrypoint"),
    ("oci_cwd", "oci.cwd"),
    ("oci_uid", "oci.uid"), ("oci_gid", "oci.gid"), ("oci_dns_domain", "oci.dns.domain"),
    ("oci_dns_nameservers", "oci.dns.nameservers"), ("oci_dns_search", "oci.dns.search"),
    ("raw_lxc", "raw.lxc"),
    ("raw_seccomp", "raw.seccomp"), ("raw_idmap", "raw.idmap"), ("raw_apparmor", "raw.apparmor"),
    ("raw_qemu", "raw.qemu"), ("raw_qemu_conf", "raw.qemu.conf"),
    ("raw_qemu_scriptlet", "raw.qemu.scriptlet"),
    ("raw_qemu_qmp_early", "raw.qemu.qmp.early"), ("raw_qemu_qmp_pre_start", "raw.qemu.qmp.pre-start"),
    ("raw_qemu_qmp_post_start", "raw.qemu.qmp.post-start"), ("linux_kernel_modules", "linux.kernel_modules"),
    ("boot_autostart", "boot.autostart"), ("boot_autostart_delay", "boot.autostart.delay"),
    ("boot_autostart_priority", "boot.autostart.priority"),
    ("boot_host_shutdown_timeout", "boot.host_shutdown_timeout"), ("boot_mode", "boot.mode"),
    ("boot_stop_priority", "boot.stop.priority"), ("boot_autorestart", "boot.autorestart"),
    ("boot_host_shutdown_action", "boot.host_shutdown_action"),
    ("cloud_init_network_config", "cloud-init.network-config"),
    ("cloud_init_user_data", "cloud-init.user-data"),
    ("cloud_init_vendor_data", "cloud-init.vendor-data")]

def getInstanceField (formField : String) : String :=
    (instanceConfigFormFieldsToPayload.get formField).getD ""

def getConfigKeys : List String := instanceConfigFormFieldsToPayload.map (·.2)

def userPropPrefix : String := "user."

def reservedUserKeys : List String := [placementGroupKey]

def credentialPrefixes : List String := ["smbios11.", "systemd.credential.", "systemd.credential-binary."]

def sshKeyPrefix : String := "cloud-init.ssh-keys."

def isUserProperty (k : String) : Bool := startsWith userPropPrefix k && !reservedUserKeys.contains k

def isCredential (k : String) : Bool := credentialPrefixes.any fun p => startsWith p k

/-! ### From the config -/

/-- `value.split(/:(.*)/s)` and the third part of the key. -/
def parseSshKey (key value : String) : SshKey where
  name := ((split '.' key)[2]?).getD "undefined"
  user := String.ofList (cut ':' value.toList).1
  fingerprint := (cut ':' value.toList).2.map String.ofList

variable (config : Config)

def parseSshKeys : List SshKey :=
  (config.entries.filter fun e => startsWith sshKeyPrefix e.1).map fun e => parseSshKey e.1 e.2

def userPropertiesFromConfig : List (String × String) :=
  config.entries.filter fun e => isUserProperty e.1

def credentialPropertiesFromConfig : List (String × String) :=
  config.entries.filter fun e => isCredential e.1

/-- The fields of `getEditValues` that hold a text, and the keys they are read from. -/
def configFields : OrdMap String String :=
  [("limits_memory_swap", "limits.memory.swap"), ("limits_cpu_allowance", "limits.cpu.allowance"),
    ("limits_cpu_nodes", "limits.cpu.nodes"), ("limits_cpu_priority", "limits.cpu.priority"),
    ("limits_hugepages_1GB", "limits.hugepages.1GB"), ("limits_hugepages_1MB", "limits.hugepages.1MB"),
    ("limits_hugepages_2MB", "limits.hugepages.2MB"), ("limits_hugepages_64KB", "limits.hugepages.64KB"),
    ("limits_memory_enforce", "limits.memory.enforce"), ("limits_memory_hotplug", "limits.memory.hotplug"),
    ("limits_memory_hugepages", "limits.memory.hugepages"),
    ("limits_memory_oom_priority", "limits.memory.oom_priority"),
    ("limits_memory_swap_priority", "limits.memory.swap.priority"), ("placement_group", placementGroupKey),
    ("security_protection_delete", "security.protection.delete"),
    ("security_privileged", "security.privileged"),
    ("security_nesting", "security.nesting"), ("security_protection_shift", "security.protection.shift"),
    ("security_idmap_base", "security.idmap.base"), ("security_idmap_isolated", "security.idmap.isolated"),
    ("security_devlxd", "security.guestapi"), ("security_devlxd_images", "security.guestapi.images"),
    ("security_secureboot", "security.secureboot"), ("security_csm", "security.csm"),
    ("security_iommu", "security.iommu"), ("security_sev", "security.sev"),
    ("security_sev_policy_es", "security.sev.policy.es"),
    ("security_agent_metrics", "security.agent.metrics"),
    ("agent_nic_config", "agent.nic_config"), ("security_protection_start", "security.protection.start"),
    ("security_bpffs_delegate_attachs", "security.bpffs.delegate_attachs"),
    ("security_bpffs_delegate_cmds", "security.bpffs.delegate_cmds"),
    ("security_bpffs_delegate_maps", "security.bpffs.delegate_maps"),
    ("security_bpffs_delegate_progs", "security.bpffs.delegate_progs"),
    ("security_bpffs_path", "security.bpffs.path"), ("security_selinux_domain", "security.selinux.domain"),
    ("security_tags", "security.tags"), ("security_selinux_label_rootfs", "security.selinux.label_rootfs"),
    ("security_selinux_level", "security.selinux.level"), ("security_selinux_type", "security.selinux.type"),
    ("security_sev_session_data", "security.sev.session.data"),
    ("security_sev_session_dh", "security.sev.session.dh"),
    ("security_syscalls_allow", "security.syscalls.allow"),
    ("security_syscalls_deny", "security.syscalls.deny"),
    ("security_syscalls_deny_compat", "security.syscalls.deny_compat"),
    ("security_syscalls_deny_default", "security.syscalls.deny_default"),
    ("security_syscalls_intercept_bpf", "security.syscalls.intercept.bpf"),
    ("security_syscalls_intercept_bpf_devices", "security.syscalls.intercept.bpf.devices"),
    ("security_syscalls_intercept_mknod", "security.syscalls.intercept.mknod"),
    ("security_syscalls_intercept_mount", "security.syscalls.intercept.mount"),
    ("security_syscalls_intercept_mount_allowed", "security.syscalls.intercept.mount.allowed"),
    ("security_syscalls_intercept_mount_fuse", "security.syscalls.intercept.mount.fuse"),
    ("security_syscalls_intercept_mount_shift", "security.syscalls.intercept.mount.shift"),
    ("security_syscalls_intercept_sched_setscheduler", "security.syscalls.intercept.sched_setscheduler"),
    ("security_syscalls_intercept_setxattr", "security.syscalls.intercept.setxattr"),
    ("security_syscalls_intercept_sysinfo", "security.syscalls.intercept.sysinfo"),
    ("snapshots_pattern", "snapshots.pattern"), ("snapshots_expiry", "snapshots.expiry"),
    ("snapshots_expiry_manual", "snapshots.expiry.manual"), ("snapshots_schedule", "snapshots.schedule"),
    ("snapshots_schedule_stopped", "snapshots.schedule.stopped"),
    ("migration_stateful", "migration.stateful"),
    ("cluster_evacuate", "cluster.evacuate"),
    ("migration_incremental_memory", "migration.incremental.memory"),
    ("migration_incremental_memory_goal", "migration.incremental.memory.goal"),
    ("migration_incremental_memory_iterations", "migration.incremental.memory.iterations"),
    ("nvidia_runtime", "nvidia.runtime"), ("nvidia_driver_capabilities", "nvidia.driver.capabilities"),
    ("nvidia_require_cuda", "nvidia.require.cuda"), ("nvidia_require_driver", "nvidia.require.driver"),
    ("oci_entrypoint", "oci.entrypoint"), ("oci_cwd", "oci.cwd"), ("oci_uid", "oci.uid"),
    ("oci_gid", "oci.gid"),
    ("oci_dns_domain", "oci.dns.domain"), ("oci_dns_nameservers", "oci.dns.nameservers"),
    ("oci_dns_search", "oci.dns.search"), ("raw_lxc", "raw.lxc"), ("raw_seccomp", "raw.seccomp"),
    ("raw_idmap", "raw.idmap"), ("raw_apparmor", "raw.apparmor"), ("raw_qemu", "raw.qemu"),
    ("raw_qemu_conf", "raw.qemu.conf"), ("raw_qemu_scriptlet", "raw.qemu.scriptlet"),
    ("raw_qemu_qmp_early", "raw.qemu.qmp.early"), ("raw_qemu_qmp_pre_start", "raw.qemu.qmp.pre-start"),
    ("raw_qemu_qmp_post_start", "raw.qemu.qmp.post-start"), ("linux_kernel_modules", "linux.kernel_modules"),
    ("boot_autostart", "boot.autostart"), ("boot_autostart_delay", "boot.autostart.delay"),
    ("boot_autostart_priority", "boot.autostart.priority"),
    ("boot_host_shutdown_timeout", "boot.host_shutdown_timeout"), ("boot_mode", "boot.mode"),
    ("boot_stop_priority", "boot.stop.priority"), ("boot_autorestart", "boot.autorestart"),
    ("boot_host_shutdown_action", "boot.host_shutdown_action"),
    ("cloud_init_network_config", "cloud-init.network-config"),
    ("cloud_init_user_data", "cloud-init.user-data"),
    ("cloud_init_vendor_data", "cloud-init.vendor-data")]

def getEditValues {J : Type} (item : Item J) : EditValues J where
  name := item.rest.get "name"
  description := item.rest.get "description"
  instanceType := none
  profiles := none
  devices := parseDevices item.devices
  limits_cpu := parseCpuLimit (item.config.get "limits.cpu")
  limits_memory := parseMemoryLimit (item.config.get "limits.memory")
  limits_disk_priority := parseNumber (item.config.get "limits.disk.priority")
  limits_processes := parseNumber (item.config.get "limits.processes")
  security_idmap_size := parseNumber (item.config.get "security.idmap.size")
  fields := configFields.map fun e => (e.1, item.config.get e.2)
  cloud_init_ssh_keys := parseSshKeys item.config
  userProperties := userPropertiesFromConfig item.config
  credentialProperties := credentialPropertiesFromConfig item.config

def getInstanceEditValues {J : Type} (instance_ : Item J) : EditValues J :=
  { getEditValues instance_ with
    instanceType := instance_.rest.get "type"
    profiles := instance_.rest.get "profiles" }

def getProfileEditValues {J : Type} (profile : Item J) : EditValues J := getEditValues profile

/-! ### To the payload -/

variable {J : Type} (values : EditValues J)

def EditValues.texts (formFields : List String) : Fields String String :=
  formFields.map fun f => (getInstanceField f, values.fields.read f)

def instanceEditConfigPayload : Fields String String :=
  values.texts ["placement_group"]

def resourceLimitsFields : List String :=
  ["limits_cpu_allowance", "limits_cpu_nodes", "limits_cpu_priority", "limits_hugepages_1GB",
    "limits_hugepages_1MB",
    "limits_hugepages_2MB", "limits_hugepages_64KB", "limits_memory_enforce", "limits_memory_hotplug",
    "limits_memory_hugepages", "limits_memory_oom_priority", "limits_memory_swap_priority"]

def resourceLimitsPayload : Fields String String :=
  [(getInstanceField "limits_cpu", cpuLimitToPayload values.limits_cpu),
      (getInstanceField "limits_memory", memoryLimitToPayload values.limits_memory)] ++
    values.texts ["limits_memory_swap"] ++
    [(getInstanceField "limits_disk_priority", values.limits_disk_priority.map numberText),
      (getInstanceField "limits_processes", values.limits_processes.map numberText)] ++
    values.texts resourceLimitsFields

def securityProtectionFields : List String :=
  ["security_protection_delete", "security_privileged", "security_nesting",
    "security_protection_shift", "security_idmap_base"]

def securityPoliciesFields : List String :=
  ["security_idmap_isolated", "security_devlxd", "security_devlxd_images", "security_secureboot",
    "security_csm",
    "security_iommu", "security_sev", "security_sev_policy_es", "security_agent_metrics", "agent_nic_config",
    "security_protection_start", "security_bpffs_delegate_attachs", "security_bpffs_delegate_cmds",
    "security_bpffs_delegate_maps", "security_bpffs_delegate_progs", "security_bpffs_path", "security_tags",
    "security_selinux_domain", "security_selinux_label_rootfs", "security_selinux_level",
      "security_selinux_type",
    "security_sev_session_data", "security_sev_session_dh", "security_syscalls_allow",
      "security_syscalls_deny",
    "security_syscalls_deny_compat", "security_syscalls_deny_default", "security_syscalls_intercept_bpf",
    "security_syscalls_intercept_bpf_devices", "security_syscalls_intercept_mknod",
    "security_syscalls_intercept_mount", "security_syscalls_intercept_mount_allowed",
    "security_syscalls_intercept_mount_fuse", "security_syscalls_intercept_mount_shift",
    "security_syscalls_intercept_sched_setscheduler", "security_syscalls_intercept_setxattr",
    "security_syscalls_intercept_sysinfo"]

def securityPoliciesPayload : Fields String String :=
  values.texts securityProtectionFields ++
    [(getInstanceField "security_idmap_size", values.security_idmap_size.map numberText)] ++
    values.texts securityPoliciesFields

def snapshotsFields : List String :=
  ["snapshots_pattern", "snapshots_schedule_stopped", "snapshots_schedule", "snapshots_expiry",
    "snapshots_expiry_manual"]

def snapshotsPayload : Fields String String :=
  values.texts snapshotsFields

def migrationFields : List String :=
  ["migration_stateful", "cluster_evacuate", "migration_incremental_memory",
    "migration_incremental_memory_goal", "migration_incremental_memory_iterations"]

def migrationPayload : Fields String String :=
  values.texts migrationFields

def nvidiaFields : List String :=
  ["nvidia_runtime", "nvidia_driver_capabilities", "nvidia_require_cuda", "nvidia_require_driver"]

def nvidiaPayload : Fields String String :=
  values.texts nvidiaFields

def ociFields : List String :=
  ["oci_entrypoint", "oci_cwd", "oci_uid", "oci_gid", "oci_dns_domain", "oci_dns_nameservers",
    "oci_dns_search"]

def ociPayload : Fields String String :=
  values.texts ociFields

def rawConfigFields : List String :=
  ["raw_lxc", "raw_seccomp", "raw_idmap", "raw_apparmor", "raw_qemu", "raw_qemu_conf", "raw_qemu_scriptlet",
    "raw_qemu_qmp_early", "raw_qemu_qmp_pre_start", "raw_qemu_qmp_post_start", "linux_kernel_modules"]

def rawConfigPayload : Fields String String :=
  values.texts rawConfigFields

def bootFields : List String :=
  ["boot_autostart", "boot_autostart_delay", "boot_autostart_priority",
    "boot_host_shutdown_timeout", "boot_mode",
    "boot_stop_priority", "boot_autorestart", "boot_host_shutdown_action"]

def bootPayload : Fields String String :=
  values.texts bootFields

def cloudInitFields : List String :=
  ["cloud_init_network_config", "cloud_init_user_data", "cloud_init_vendor_data"]

def cloudInitPayload : Fields String String :=
  values.texts cloudInitFields

def profileDetailConfigPayload : Fields String String :=
  values.texts ["placement_group"]

/-- `result[name] = value` for each of a list. -/
def assign (result : Fields String String) (properties : List (String × String)) : Fields String String :=
  properties.foldl (fun m e => put m e.1 (some e.2)) result

def sshKeyPayload : Fields String String :=
  assign [] (values.cloud_init_ssh_keys.map fun record =>
    (sshKeyPrefix ++ record.name, record.user ++ ":" ++ record.fingerprint.getD "undefined"))

/-- The keys of the config that the properties were read from, undefined. -/
def cleared (p : String → Bool) : Fields String String :=
  (config.entries.filter fun e => p e.1).map fun e => (e.1, none)

def userPropertiesPayload (values : EditValues J) : Fields String String :=
  assign (cleared config isUserProperty) values.userProperties

def credentialPropertiesPayload (values : EditValues J) : Fields String String :=
  assign (cleared config isCredential) (values.credentialProperties.filter fun e => e.1 ≠ "")

def getUnhandledKeyValues {V : Type} (item : OrdMap String V) (handledKeys : List String) : OrdMap String V :=
  item.filter fun e => !handledKeys.contains e.1 && !startsWith sshKeyPrefix e.1

structure Payload (J : Type) where
  rest : Fields String J
  devices : OrdMap String (Option (Fields String String))
  config : Fields String String

def instanceEditDetailPayload : Fields String J :=
  [("name", values.name), ("description", values.description), ("type", values.instanceType),
    ("profiles", values.profiles)]

def getInstancePayload (instance_ : Item J) (values : EditValues J) : Payload J where
  rest := spread (instanceEditDetailPayload values)
    (ofMap (getUnhandledKeyValues instance_.rest
      ["name", "description", "type", "profiles", "devices", "config"]))
  devices := formDeviceToPayload values.devices
  config := spreads
    [instanceEditConfigPayload values, resourceLimitsPayload values, securityPoliciesPayload values,
      snapshotsPayload values, migrationPayload values, nvidiaPayload values, ociPayload values,
      rawConfigPayload values, bootPayload values, cloudInitPayload values, sshKeyPayload values,
      ofMap (getUnhandledKeyValues instance_.config.entries getConfigKeys),
      userPropertiesPayload instance_.config values, credentialPropertiesPayload instance_.config values]

def profileDetailPayload : Fields String J :=
  [("name", values.name), ("description", values.description)]

def getProfilePayload (profile : Item J) (values : EditValues J) : Payload J where
  rest := spread (profileDetailPayload values)
    (ofMap (getUnhandledKeyValues profile.rest ["name", "description", "devices", "config"]))
  devices := formDeviceToPayload values.devices
  config := spreads
    [profileDetailConfigPayload values, resourceLimitsPayload values, securityPoliciesPayload values,
      snapshotsPayload values, migrationPayload values, nvidiaPayload values, ociPayload values,
      rawConfigPayload values, bootPayload values, cloudInitPayload values, sshKeyPayload values,
      ofMap (getUnhandledKeyValues profile.config.entries getConfigKeys)]

/-!
### The changes in a form

`util/formChangeCount.tsx`, with `isRootDisk` of `util/devices.tsx`: how many changes the button
that saves an instance or a profile counts. At a count of 0 it is disabled.
-/

inductive DeviceField
  | text (s : String)
  | bare (device : Device)
deriving DecidableEq

namespace FormDevice

/-- `device[key]`. -/
def field (device : FormDevice) (key : String) : Option DeviceField :=
  if key = "name" then some (.text device.name)
  else if key = "bare" then device.bare.map .bare
  else (device.item.read key).map .text

/-- `Object.keys(device)`. -/
def keys (device : FormDevice) : List String :=
  ["name"] ++ (if device.bare.isSome then ["bare"] else []) ++ device.item.map (·.1)

structure IsObject (device : FormDevice) : Prop where
  nodup : (device.item.map (·.1)).Nodup
  others : ∀ key ∈ ["name", "bare"], key ∉ device.item.map (·.1)

end FormDevice

/-- `InstanceAndProfileFormValues` of an edit form. -/
structure FormValues (J : Type) where
  fields : Fields String J
  nodup : (fields.map (·.1)).Nodup
  /-- `limits_cpu` and `limits_memory`, each an object. -/
  limits : Fields String (Fields String J)
  profiles : Option (List String)
  devices : List FormDevice
  objects : ∀ device ∈ devices, device.IsObject
  userProperties : List (String × String)

/-- `ConfigurationRowFormikProps` of an edit form: the values are those of one form. -/
structure Formik (J : Type) where
  initialValues : FormValues J
  values : FormValues J
  sameForm : values.profiles.isSome = initialValues.profiles.isSome

def ignoredFields : List String :=
  ["readOnly", "profiles", "limits_cpu", "limits_memory", "devices", "barePool", "editRestriction",
    "userProperties"]

variable {J : Type} (formik : Formik J)

def getPrimitiveFieldChanges [DecidableEq J] : ℕ :=
  (formik.values.fields.countP fun e =>
      !ignoredFields.contains e.1 && e.2 ≠ formik.initialValues.fields.read e.1) +
    formik.initialValues.fields.countP fun e =>
      !(ignoredFields.contains e.1 || formik.values.fields.any (·.1 = e.1))
        && formik.values.fields.read e.1 ≠ e.2

def getProfileChanges : ℕ :=
  match formik.initialValues.profiles, formik.values.profiles with
  | some initProfiles, some profiles =>
    ((profiles.length : ℤ) - initProfiles.length).natAbs + (initProfiles.zip profiles).countP
      fun p => p.1 ≠ p.2
  | _, _ => 0

/-- `JSON.stringify` of the value with its keys sorted, as what it writes at each. -/
def stringifyWithOrder (value : Option (Fields String J)) : Option (List (String × J)) :=
  value.map fun value =>
    ((value.map (·.1)).mergeSort fun a b => decide (a ≤ b)).filterMap fun key =>
      (value.read key).map fun v => (key, v)

def getLimitChanges [DecidableEq J] : ℕ :=
  ["limits_cpu", "limits_memory"].countP fun key =>
    let init := formik.initialValues.limits.read key
    if formik.values.limits.any (·.1 = key) then
      stringifyWithOrder init ≠ stringifyWithOrder (formik.values.limits.read key)
    else init.isSome

def isRootDisk (device : FormDevice) : Bool :=
  device.item.read "type" = some "disk" && device.item.read "path" = some "/" &&
    (device.item.read "source").all (· = "")

/-- `a[key] ?? ""` is not `b[key] ?? ""`. -/
def fieldChanged (a b : FormDevice) (key : String) : Bool :=
  (a.field key).getD (.text "") ≠ (b.field key).getD (.text "")

def getDevicePairFieldChanges (a b : FormDevice) : ℕ :=
  (a.keys ++ b.keys).dedup.countP fun key =>
    !(isRootDisk a && !(["size", "pool"].contains key)) && fieldChanged a b key

def removedDevices (initDevices devices : List FormDevice) : List FormDevice :=
  initDevices.filter fun init => !(devices.map (·.name)).contains init.name

/-- What a device of the initial values adds that is there still. -/
def keptDeviceChanges (devices : List FormDevice) (init : FormDevice) : ℕ :=
  match devices.find? (·.name = init.name) with
  | some device => getDevicePairFieldChanges device init
  | none => 0

/-- What a name that is new adds: for a rename one less, which was counted as a removal. -/
def newDeviceChanges (initDevices devices : List FormDevice) (name : String) : ℤ :=
  match devices.find? (·.name = name) with
  | some newDevice =>
    match (removedDevices initDevices devices).find? (·.item.read "type" = newDevice.item.read "type") with
    | some oldDevice => getDevicePairFieldChanges oldDevice newDevice - 1
    | none => 1
  | none => 1

def getDeviceChanges : ℤ :=
  let initDevices := formik.initialValues.devices
  let devices := formik.values.devices
  let newNames := (devices.map (·.name)).filter fun name => !(initDevices.map (·.name)).contains name
  (removedDevices initDevices devices).length + (initDevices.map (keptDeviceChanges devices)).sum +
    (newNames.map (newDeviceChanges initDevices devices)).sum

def getUserPropertiesChanges : ℕ :=
  let initProperties := formik.initialValues.userProperties
  let properties := formik.values.userProperties
  (initProperties.countP fun init => !(properties.map (·.1)).contains init.1) +
      (initProperties.countP fun init => (OrdMap.get properties init.1).any (· ≠ init.2)) +
    (properties.map (·.1)).countP fun name => !(initProperties.map (·.1)).contains name

def getFormChangeCount [DecidableEq J] : ℤ :=
  getPrimitiveFieldChanges formik + getProfileChanges formik + getLimitChanges formik +
    getDeviceChanges formik +
    getUserPropertiesChanges formik

end IncusCloud.Forms
