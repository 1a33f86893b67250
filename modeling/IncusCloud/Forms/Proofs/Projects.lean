import IncusCloud.Forms.Projects
import IncusCloud.Forms.Proofs.Payloads

/-!
# What saving an unedited project changes

As for an instance, one can say of every key what the payload has there, whichever of its tables
writes it: `savedProject`. The config is kept where `savedProject` is what stood at each key, a
boolean up to its spelling (`project_kept_iff`). The form reads each boolean by comparing it with
`true`, so another spelling is saved as `false`, and a project restricted in another spelling loses
every restriction.
-/

namespace IncusCloud.Forms

open Lib List

variable {J : Type} {k : String}

/-! ### Kinds of keys -/

def trueTexts : List String := ["true", "1", "yes", "on"]

def booleanKeys : List String :=
  ["restricted", "features.images", "features.profiles", "features.networks",
    "features.networks.zones", "features.storage.buckets", "features.storage.volumes"]

def limitKeys : List String :=
  ["limits.instances", "limits.containers", "limits.virtual-machines", "limits.networks",
    "limits.cpu", "limits.processes"]

/-- The texts that are written unless they are empty. -/
def filledKeys : List String := ["limits.memory", "replica.cluster"]

def restrictionKeys : List String := restrictionFields.map (·.2)

def isBooleanKey (k : String) : Bool := k = "restricted" || startsWith "features." k

def isTrueText (v : Option String) : Bool := v.any fun s => trueTexts.contains s

def SameValue (k : String) (a b : Option String) : Prop :=
  if isBooleanKey k then isTrueText a = isTrueText b else a = b

instance decidableSameValue (k : String) (a b : Option String) : Decidable (SameValue k a b) :=
  inferInstanceAs (Decidable (if isBooleanKey k then isTrueText a = isTrueText b else a = b))

variable (c : Config)

def savedProject (k : String) : Option String :=
  if k ∈ booleanKeys then boolToPayload (isTrue c k)
  else if k ∈ limitKeys then (parseNumber (c.get k)).map numberText
  else if k ∈ filledKeys then (c.get k).filter (· ≠ "")
  else if k ∈ restrictionKeys ∧ c.get "restricted" ≠ some "true" ∨ startsWith sshKeyPrefix k then none
  else c.get k

def restrictionPayloadFields : List String :=
  ["restricted_cluster_groups", "restricted_cluster_target"] ++
    ["restricted_virtual_machines_low_level", "restricted_virtual_machines_nesting",
      "restricted_containers_low_level",
      "restricted_containers_nesting", "restricted_containers_privilege", "restricted_container_interception",
      "restrict_backups", "restrict_snapshots", "restricted_idmap_uid", "restricted_idmap_gid"] ++
    ["restricted_devices_disk", "restricted_devices_disk_paths", "restricted_devices_gpu",
      "restricted_devices_infiniband", "restricted_devices_nic", "restricted_devices_pci",
      "restricted_devices_unix_block", "restricted_devices_unix_char", "restricted_devices_unix_hotplug",
      "restricted_devices_usb", "restricted_storage_pools_access"] ++
    ["restricted_network_access", "restricted_network_subnets", "restricted_network_uplinks",
      "restricted_network_zones"] ++
    ["restricted_registries"]

theorem kinds_facts :
    (∀ k ∈ getProjectConfigKeys, startsWith sshKeyPrefix k = false) ∧
      (∀ k ∈ limitKeys, k ∉ booleanKeys ∧ isBooleanKey k = false) ∧
        (∀ k ∈ filledKeys, k ∉ booleanKeys ∧ k ∉ limitKeys ∧ isBooleanKey k = false) ∧
          (∀ k ∈ restrictionKeys, k ∉ booleanKeys ∧ k ∉ limitKeys ∧ k ∉ filledKeys ∧ isBooleanKey k = false) ∧
            ∀ k ∈ booleanKeys, isBooleanKey k = true := by
  have hssh : ∀ k ∈ getProjectConfigKeys, (utf8 sshKeyPrefix).isPrefixOf (utf8 k) = false := by decide
  have hplain : ∀ k ∈ limitKeys ++ (filledKeys ++ restrictionKeys),
      k ≠ "restricted" ∧ (utf8 "features.").isPrefixOf (utf8 k) = false := by decide
  have hother : (∀ k ∈ filledKeys, k ∉ limitKeys) ∧ ∀ k ∈ restrictionKeys, k ∉ limitKeys ∧
    k ∉ filledKeys := by
    decide
  have hbooleans : ∀ k ∈ booleanKeys, isBooleanKey k = true := by decide
  have hkind : ∀ k ∈ limitKeys ++ (filledKeys ++ restrictionKeys), k ∉ booleanKeys ∧
    isBooleanKey k = false := by
    intro k hk
    have hfalse : isBooleanKey k = false := by
      rw [isBooleanKey, startsWith_eq_false (hplain k hk).2, decide_eq_false (hplain k hk).1]
      rfl
    exact ⟨fun hmem => by simp [hbooleans k hmem] at hfalse, hfalse⟩
  refine ⟨fun k hk => startsWith_eq_false (hssh k hk), fun k hk => hkind k (mem_append_left _ hk),
    fun k hk => ?_, fun k hk => ?_, hbooleans⟩
  · obtain ⟨hboolean, hfalse⟩ := hkind k (mem_append_right _ (mem_append_left _ hk))
    exact ⟨hboolean, hother.1 k hk, hfalse⟩
  · obtain ⟨hboolean, hfalse⟩ := hkind k (mem_append_right _ (mem_append_right _ hk))
    exact ⟨hboolean, (hother.2 k hk).1, (hother.2 k hk).2, hfalse⟩

def allKeys : List String :=
    booleanKeys ++ (limitKeys ++ (filledKeys ++ (restrictionKeys ++ ["limits.disk"])))

theorem mem_getProjectConfigKeys : k ∈ getProjectConfigKeys ↔
    k ∈ booleanKeys ∨ k ∈ limitKeys ∨ k ∈ filledKeys ∨ k ∈ restrictionKeys ∨ k = "limits.disk" := by
  have hkeys : getProjectConfigKeys = slices
      [(15, 2), (27, 11), (17, 10), (38, 5), (0, 10), (43, 1), (10, 2), (13, 1), (12, 1),
        (14, 1)] allKeys := rfl
  have hall : allKeys = slices
      [(28, 10), (39, 2), (42, 1), (41, 1), (43, 1), (0, 2), (13, 10), (2, 11), (23, 5), (38, 1)]
      getProjectConfigKeys := rfl
  have hiff : k ∈ getProjectConfigKeys ↔ k ∈ allKeys :=
    ⟨fun hk => mem_of_mem_slices (hkeys ▸ hk), fun hk => mem_of_mem_slices (hall ▸ hk)⟩
  rw [hiff, allKeys]
  simp only [mem_append, mem_singleton]

theorem restriction_facts : restrictionPayloadFields.map getProjectKey = restrictionKeys ∧
    ∀ f ∈ restrictionPayloadFields, restrictionFields.get f = some (getProjectKey f) := by
  decide

theorem payload_keys :
    ["restricted", "features_images", "features_profiles", "features_networks", "features_networks_zones",
        "features_storage_buckets", "features_storage_volumes"].map getProjectKey = booleanKeys ∧
      ["limits_instances", "limits_containers", "limits_virtual_machines", "limits_disk",
        "limits_networks", "limits_cpu", "limits_memory", "limits_processes"].map getProjectKey =
        ["limits.instances", "limits.containers", "limits.virtual-machines", "limits.disk",
          "limits.networks", "limits.cpu", "limits.memory", "limits.processes"] := by
  decide

theorem mem_restrictionPayloadKeys :
    k ∈ restrictionPayloadFields.map getProjectKey ↔ k ∈ restrictionKeys := by
  rw [restriction_facts.1]

/-! ### What is saved at a key -/

theorem savedProject_boolean (hk : k ∈ booleanKeys) :
    savedProject c k = boolToPayload (isTrue c k) := if_pos hk

theorem savedProject_limit (hk : k ∈ limitKeys) :
    savedProject c k = (parseNumber (c.get k)).map numberText := by
  have hboolean := (kinds_facts.2.1 k hk).1
  unfold savedProject
  rw [if_neg hboolean, if_pos hk]

theorem savedProject_filled (hk : k ∈ filledKeys) :
    savedProject c k = (c.get k).filter (· ≠ "") := by
  obtain ⟨hboolean, hlimit, -⟩ := kinds_facts.2.2.1 k hk
  unfold savedProject
  rw [if_neg hboolean, if_neg hlimit, if_pos hk]

theorem savedProject_restriction (hk : k ∈ restrictionKeys) :
    savedProject c k = if c.get "restricted" = some "true" then c.get k else none := by
  obtain ⟨hboolean, hlimit, hfilled, -⟩ := kinds_facts.2.2.2.1 k hk
  have hssh : startsWith sshKeyPrefix k = false :=
    kinds_facts.1 k (mem_getProjectConfigKeys.mpr (.inr (.inr (.inr (.inl hk)))))
  unfold savedProject
  rw [if_neg hboolean, if_neg hlimit, if_neg hfilled]
  by_cases hrestricted : c.get "restricted" = some "true"
  · simp [hrestricted, hssh]
  · simp [hrestricted, hk]

theorem savedProject_ssh (hk : startsWith sshKeyPrefix k = true) : savedProject c k = none := by
  have hnot : k ∉ getProjectConfigKeys := by
    intro hmem
    rw [kinds_facts.1 k hmem] at hk
    contradiction
  simp only [mem_getProjectConfigKeys, not_or] at hnot
  obtain ⟨hboolean, hlimit, hfilled, -⟩ := hnot
  unfold savedProject
  rw [if_neg hboolean, if_neg hlimit, if_neg hfilled, if_pos (.inr hk)]

theorem savedProject_other (hk : k = "limits.disk" ∨ k ∉ getProjectConfigKeys)
    (hssh : startsWith sshKeyPrefix k = false) : savedProject c k = c.get k := by
  have hkinds : k ∉ booleanKeys ∧ k ∉ limitKeys ∧ k ∉ filledKeys ∧ k ∉ restrictionKeys := by
    rcases hk with rfl | hk
    · decide
    · simp only [mem_getProjectConfigKeys, not_or] at hk
      exact ⟨hk.1, hk.2.1, hk.2.2.1, hk.2.2.2.1⟩
  obtain ⟨hboolean, hlimit, hfilled, hrestriction⟩ := hkinds
  unfold savedProject
  rw [if_neg hboolean, if_neg hlimit, if_neg hfilled, if_neg]
  rintro (⟨hmem, -⟩ | hmem)
  · exact hrestriction hmem
  · rw [hssh] at hmem
    contradiction

/-! ### The tables -/

variable (project : Project J)

theorem projectDetailRestrictionPayload_eq : projectDetailRestrictionPayload (getProjectEditValues project) =
    booleanKeys.map fun k => (k, savedProject project.config k) := by
  obtain ⟨hkeys, -⟩ := payload_keys
  have hsaved : (booleanKeys.map fun k => (k, savedProject project.config k)) =
      booleanKeys.map fun k => (k, boolToPayload (isTrue project.config k)) := by
    apply map_congr_left
    intro k hk
    rw [savedProject_boolean project.config hk]
  rw [hsaved]
  simp only [map_cons, map_nil, booleanKeys, List.cons.injEq, and_true] at hkeys
  obtain ⟨h1, h2, h3, h4, h5, h6, h7⟩ := hkeys
  unfold projectDetailRestrictionPayload
  rw [h1, h2, h3, h4, h5, h6, h7]
  rfl

def limitPayloadKeys : List String :=
  ["limits.instances", "limits.containers", "limits.virtual-machines", "limits.disk",
    "limits.networks", "limits.cpu", "limits.memory", "limits.processes"]

theorem resourceLimitsPayload_eq : (getProjectEditValues project).resourceLimitsPayload =
    limitPayloadKeys.map fun k => (k, savedProject project.config k) := by
  have hnumber := fun k hk => savedProject_limit project.config (k := k) hk
  have hdisk := savedProject_other project.config (.inl (rfl : "limits.disk" = "limits.disk")) (by decide)
  have hmemory := savedProject_filled project.config (k := "limits.memory") (by decide)
  obtain ⟨-, hkeys⟩ := payload_keys
  simp only [map_cons, map_nil, List.cons.injEq, and_true] at hkeys
  obtain ⟨h1, h2, h3, h4, h5, h6, h7, h8⟩ := hkeys
  unfold ProjectFormValues.resourceLimitsPayload limitPayloadKeys
  simp only [map_cons, map_nil]
  rw [h1, h2, h3, h4, h5, h6, h7, h8, hdisk, hmemory, hnumber "limits.instances" (by decide),
    hnumber "limits.containers" (by decide), hnumber "limits.virtual-machines" (by decide),
    hnumber "limits.networks" (by decide), hnumber "limits.cpu" (by decide),
      hnumber "limits.processes" (by decide)]
  rfl

variable (values : ProjectFormValues J)

def restrictionTables : List (Fields String String) :=
  [clusterRestrictionPayload values, instanceRestrictionPayload values, deviceUsageRestrictionPayload values,
    networkRestrictionPayload values, imageRestrictionPayload values]

theorem ProjectFormValues.texts_append (fs gs : List String) :
    values.texts (fs ++ gs) = values.texts fs ++ values.texts gs := map_append

theorem restrictionTables_flatten :
    (restrictionTables values).flatten = values.texts restrictionPayloadFields := by
  unfold restrictionTables restrictionPayloadFields
  simp only [ProjectFormValues.texts_append, flatten_cons, flatten_nil, append_nil, append_assoc]
  rfl

theorem restrictionTables_agrees (hrestricted : project.config.get "restricted" = some "true") :
    Fields.Agrees (savedProject project.config)
      (restrictionTables (getProjectEditValues project)).flatten := by
  rw [restrictionTables_flatten]
  intro e he
  obtain ⟨f, hf, rfl⟩ := List.mem_map.mp he
  have hread : (getProjectEditValues project).restrictions.read f = project.config.get (getProjectKey f) := by
    have hmap := Fields.read_map restrictionFields project.config.get f
    rw [restriction_facts.2 f hf] at hmap
    exact hmap
  have hkey := mem_restrictionPayloadKeys.mp (mem_map_of_mem hf)
  show (getProjectEditValues project).restrictions.read f = savedProject project.config (getProjectKey f)
  rw [hread, savedProject_restriction project.config hkey, if_pos hrestricted]

theorem replicaPayload_eq : replicaPayload (getProjectEditValues project) =
    (savedProject project.config "replica.cluster").toList.map fun v => ("replica.cluster", some v) := by
  have hvalue : (getProjectEditValues project).replica_cluster = project.config.get "replica.cluster" := rfl
  rw [savedProject_filled project.config (by decide)]
  unfold replicaPayload
  rw [hvalue]
  cases project.config.get "replica.cluster" with
  | none => rfl
  | some cluster =>
    by_cases hempty : cluster = ""
    · subst hempty
      rfl
    · have hfilter : (some cluster).filter (· ≠ "") = some cluster := by simp [hempty]
      rw [hfilter]
      exact if_neg hempty

theorem mem_replicaPayload {e : String × Option String} : e ∈ replicaPayload (getProjectEditValues project) ↔
    e.1 = "replica.cluster" ∧ e.2 = savedProject project.config e.1 ∧ e.2 ≠ none := by
  rw [replicaPayload_eq, List.mem_map]
  constructor
  · rintro ⟨v, hv, rfl⟩
    exact ⟨rfl, (Option.mem_toList.mp hv).symm, Option.some_ne_none v⟩
  · rintro ⟨hkey, hvalue, hsome⟩
    obtain ⟨v, hv⟩ := Option.ne_none_iff_exists'.mp hsome
    rw [hkey, hv] at hvalue
    exact ⟨v, Option.mem_toList.mpr hvalue.symm, Prod.ext hkey.symm hv.symm⟩

theorem mem_projectUnhandled {e : String × Option String} :
    e ∈ Fields.ofMap (getUnhandledKeyValues project.config.entries getProjectConfigKeys) ↔
      e.2 = project.config.get e.1 ∧ e.2 ≠ none ∧ e.1 ∉ getProjectConfigKeys ∧
        startsWith sshKeyPrefix e.1 = false := by
  constructor
  · intro he
    obtain ⟨x, hx, rfl⟩ := List.mem_map.mp he
    obtain ⟨hx, hkey⟩ := mem_filter.mp hx
    simp only [Bool.and_eq_true, Bool.not_eq_true', contains_eq_mem, decide_eq_false_iff_not] at hkey
    exact ⟨(project.config.get_of_mem hx).symm, Option.some_ne_none _, hkey.1, hkey.2⟩
  · rintro ⟨hvalue, hsome, hkey, hssh⟩
    obtain ⟨v, hv⟩ := Option.ne_none_iff_exists'.mp hsome
    rw [hv] at hvalue
    have hmem : (e.1, v) ∈ getUnhandledKeyValues project.config.entries getProjectConfigKeys := by
      apply mem_filter.mpr
      refine ⟨OrdMap.mem_of_get hvalue.symm, ?_⟩
      simp [hkey, hssh]
    have hentry : e = (e.1, some v) := Prod.ext rfl hv
    rw [hentry]
    exact mem_map_of_mem hmem

/-! ### The config that is saved -/

def savedTables : List (Fields String String) :=
  [projectDetailRestrictionPayload (getProjectEditValues project),
      (getProjectEditValues project).resourceLimitsPayload] ++
    (if project.config.get "restricted" = some "true" then
      restrictionTables (getProjectEditValues project) else []) ++
    [replicaPayload (getProjectEditValues project),
      Fields.ofMap (getUnhandledKeyValues project.config.entries getProjectConfigKeys)]

theorem config_eq_spreads : (getProjectPayload project (getProjectEditValues project)).config =
    Fields.spreads (savedTables project) := by
  unfold getProjectPayload savedTables
  by_cases hrestricted : project.config.get "restricted" = some "true"
  · have hvalue : (getProjectEditValues project).restricted = some true := by
      simp [getProjectEditValues, isTrue, hrestricted]
    rw [if_pos hvalue, if_pos hrestricted]
    rfl
  · have hvalue : (getProjectEditValues project).restricted ≠ some true := by
      simp [getProjectEditValues, isTrue, hrestricted]
    rw [if_neg hvalue, if_neg hrestricted]

theorem savedTables_agrees {f : Fields String String} (hf : f ∈ savedTables project) :
    Fields.Agrees (savedProject project.config) f := by
  unfold savedTables at hf
  simp only [mem_append, mem_cons, not_mem_nil, or_false] at hf
  rcases hf with ((rfl | rfl) | hf) | rfl | rfl
  · rw [projectDetailRestrictionPayload_eq]
    intro e he
    obtain ⟨k, -, rfl⟩ := List.mem_map.mp he
    rfl
  · rw [resourceLimitsPayload_eq]
    intro e he
    obtain ⟨k, -, rfl⟩ := List.mem_map.mp he
    rfl
  · split_ifs at hf with hrestricted
    · intro e he
      exact restrictionTables_agrees project hrestricted e (mem_flatten.mpr ⟨f, hf, he⟩)
    · exact absurd hf not_mem_nil
  · intro e he
    exact ((mem_replicaPayload project).mp he).2.1
  · intro e he
    obtain ⟨hvalue, -, hkey, hssh⟩ := (mem_projectUnhandled project).mp he
    rw [hvalue, savedProject_other project.config (.inr hkey) hssh]

theorem savedProject_eq_none (hk : k ∉ (savedTables project).flatten.map (·.1)) :
    savedProject project.config k = none := by
  have hnot : ∀ f ∈ savedTables project, k ∉ f.map (·.1) := by
    intro f hf hmem
    obtain ⟨e, he, rfl⟩ := List.mem_map.mp hmem
    exact hk (mem_map_of_mem (mem_flatten.mpr ⟨f, hf, he⟩))
  unfold savedTables at hnot
  simp only [mem_append, mem_cons, not_mem_nil, or_false] at hnot
  have hboolean : k ∉ booleanKeys := by
    have htable := hnot _ (.inl (.inl (.inl rfl)))
    rw [projectDetailRestrictionPayload_eq, map_map] at htable
    simpa [Function.comp_def] using htable
  have hlimit : k ∉ limitPayloadKeys := by
    have htable := hnot _ (.inl (.inl (.inr rfl)))
    rw [resourceLimitsPayload_eq, map_map] at htable
    simpa [Function.comp_def] using htable
  by_contra hsome
  by_cases hhandled : k ∈ getProjectConfigKeys
  · rcases mem_getProjectConfigKeys.mp hhandled with hmem | hmem | hmem | hmem | rfl
    · exact hboolean hmem
    · have hsub : ∀ k ∈ limitKeys, k ∈ limitPayloadKeys := by decide
      exact hlimit (hsub k hmem)
    · have hsub : ∀ k ∈ filledKeys, k ∈ limitPayloadKeys ∨ k = "replica.cluster" := by decide
      have hreplica := (hsub k hmem).resolve_left hlimit
      have hentry : (k, savedProject project.config k) ∈ replicaPayload (getProjectEditValues project) :=
        (mem_replicaPayload project).mpr ⟨hreplica, rfl, hsome⟩
      exact hnot _ (.inr (.inl rfl)) (mem_map_of_mem hentry)
    · rw [savedProject_restriction project.config hmem] at hsome
      split_ifs at hsome with hrestricted
      · obtain ⟨f, hf, hfield⟩ := List.mem_map.mp (mem_restrictionPayloadKeys.mpr hmem)
        have hentry : (getProjectKey f, (getProjectEditValues project).restrictions.read f) ∈
            (restrictionTables (getProjectEditValues project)).flatten := by
          rw [restrictionTables_flatten]
          exact mem_map_of_mem hf
        obtain ⟨table, htable, hentry⟩ := mem_flatten.mp hentry
        apply hnot table
        · rw [if_pos hrestricted]
          exact .inl (.inr htable)
        · rw [← hfield]
          exact mem_map_of_mem hentry
      · exact hsome rfl
    · exact hlimit (by decide)
  · by_cases hssh : startsWith sshKeyPrefix k = true
    · exact hsome (savedProject_ssh project.config hssh)
    · rw [Bool.not_eq_true] at hssh
      rw [savedProject_other project.config (.inr hhandled) hssh] at hsome
      have hentry : (k, project.config.get k) ∈
          Fields.ofMap (getUnhandledKeyValues project.config.entries getProjectConfigKeys) :=
        (mem_projectUnhandled project).mpr ⟨rfl, hsome, hhandled, hssh⟩
      exact hnot _ (.inr (.inr rfl)) (mem_map_of_mem hentry)

theorem read_savedProject (k : String) :
    (getProjectPayload project (getProjectEditValues project)).config.read k =
      savedProject project.config k := by
  rw [config_eq_spreads, Fields.read_spreads (fun f hf => savedTables_agrees project hf)]
  split_ifs with hk
  · rfl
  · exact (savedProject_eq_none project hk).symm

/-! ### When it is the config of the project -/

structure ProjectKept (c : Config) : Prop where
  booleans : ∀ k ∈ booleanKeys, ∀ v, c.get k = some v → v ∈ trueTexts → v = "true"
  restrictions : c.get "restricted" = some "true" ∨ ∀ k ∈ restrictionKeys, c.get k = none
  limits : ∀ k ∈ limitKeys, ∀ v, c.get k = some v → NumberKept v
  filled : ∀ k ∈ filledKeys, c.get k ≠ some ""
  sshKeys : ∀ k, startsWith sshKeyPrefix k = true → c.get k = none

theorem isTrueText_saved (k : String) : isTrueText (boolToPayload (isTrue c k)) = isTrueText (c.get k) ↔
    ∀ v, c.get k = some v → v ∈ trueTexts → v = "true" := by
  have hsaved : isTrueText (boolToPayload (isTrue c k)) = decide (c.get k = some "true") := by
    unfold isTrue boolToPayload
    by_cases htrue : c.get k = some "true"
    · simp [htrue, isTrueText, trueTexts]
    · simp [htrue, isTrueText, trueTexts]
  rw [hsaved]
  cases hv : c.get k with
  | none => simp [isTrueText]
  | some v =>
    by_cases htrue : v = "true"
    · subst htrue
      simp [isTrueText, trueTexts]
    · simp [isTrueText, htrue]

theorem limit_kept (k : String) : (parseNumber (c.get k)).map numberText = c.get k ↔
    ∀ v, c.get k = some v → NumberKept v := by
  cases hv : c.get k with
  | none => exact iff_of_true rfl fun v hv => absurd hv (Option.some_ne_none v).symm
  | some v =>
    rw [number_kept_iff]
    simp

theorem filled_kept (v : Option String) : v.filter (· ≠ "") = v ↔ v ≠ some "" := by
  cases v with
  | none => exact iff_of_true rfl (Option.some_ne_none "").symm
  | some v => simp [Option.filter_eq_some_iff]

/-- Saving a project without edits keeps its config just where the form can show it. -/
theorem project_kept_iff : (∀ k, SameValue k
    ((getProjectPayload project (getProjectEditValues project)).config.read k)
      (project.config.get k)) ↔ ProjectKept project.config := by
  obtain ⟨hhandled, hlimits, hfilled, hrestrictions, hbooleans⟩ := kinds_facts
  simp only [read_savedProject]
  constructor
  · intro h
    -- the same value of a key that is no boolean is the same text
    have hsame : ∀ k, isBooleanKey k = false → savedProject project.config k = project.config.get k := by
      intro k hk
      have hvalue := h k
      unfold SameValue at hvalue
      rwa [hk, if_neg Bool.false_ne_true] at hvalue
    refine ⟨fun k hk => ?_, ?_, fun k hk => ?_, fun k hk => ?_, fun k hk => ?_⟩
    · have hvalue := h k
      unfold SameValue at hvalue
      rw [if_pos (hbooleans k hk), savedProject_boolean _ hk] at hvalue
      exact (isTrueText_saved _ k).mp hvalue
    · by_cases hrestricted : project.config.get "restricted" = some "true"
      · exact .inl hrestricted
      · right
        intro k hk
        have hvalue := hsame k (hrestrictions k hk).2.2.2
        rw [savedProject_restriction _ hk, if_neg hrestricted] at hvalue
        exact hvalue.symm
    · have hvalue := hsame k (hlimits k hk).2
      rw [savedProject_limit _ hk] at hvalue
      exact (limit_kept _ k).mp hvalue
    · have hvalue := hsame k (hfilled k hk).2.2
      rw [savedProject_filled _ hk] at hvalue
      exact (filled_kept _).mp hvalue
    · have hdisjoint : isBooleanKey k = false := by
        have hfeatures : startsWith "features." k = false := startsWith_disjoint hk (by decide) (by decide)
        have hname : k ≠ "restricted" := by
          rintro rfl
          exact absurd hk (by decide)
        simp [isBooleanKey, hfeatures, hname]
      have hvalue := hsame k hdisjoint
      rw [savedProject_ssh _ hk] at hvalue
      exact hvalue.symm
  · intro h k
    unfold SameValue
    by_cases hboolean : k ∈ booleanKeys
    · rw [if_pos (hbooleans k hboolean), savedProject_boolean _ hboolean]
      exact (isTrueText_saved _ k).mpr (h.booleans k hboolean)
    · -- every other key keeps its text
      have hvalue : savedProject project.config k = project.config.get k := by
        by_cases hkey : k ∈ getProjectConfigKeys
        · rcases mem_getProjectConfigKeys.mp hkey with hmem | hmem | hmem | hmem | hdisk
          · exact absurd hmem hboolean
          · rw [savedProject_limit _ hmem]
            exact (limit_kept _ k).mpr (h.limits k hmem)
          · rw [savedProject_filled _ hmem]
            exact (filled_kept _).mpr (h.filled k hmem)
          · rw [savedProject_restriction _ hmem]
            split_ifs with hrestricted
            · rfl
            · exact (h.restrictions.resolve_left hrestricted k hmem).symm
          · exact savedProject_other _ (.inl hdisk) (hhandled k hkey)
        · by_cases hssh : startsWith sshKeyPrefix k = true
          · rw [savedProject_ssh _ hssh, h.sshKeys k hssh]
          · rw [Bool.not_eq_true] at hssh
            exact savedProject_other _ (.inr hkey) hssh
      rw [hvalue]
      split_ifs <;> rfl

/-- A project restricted with `yes`, and what it restricts. -/
def restrictedProject : Project String where
  rest := [("name", "web"), ("description", "")]
  nodup := by decide
  config := ⟨[("restricted", "yes"), ("restricted.containers.nesting", "block")], by decide⟩

/-- It is saved as one that is not restricted. -/
theorem restrictions_lost : ¬ ∀ (project : Project String) (k : String), SameValue k
    ((getProjectPayload project (getProjectEditValues project)).config.read k) (project.config.get k) := by
  intro h
  have hnesting := h restrictedProject "restricted.containers.nesting"
  rw [read_savedProject] at hnesting
  exact absurd hnesting (by decide)

end IncusCloud.Forms
