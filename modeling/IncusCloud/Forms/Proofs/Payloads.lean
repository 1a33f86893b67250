import IncusCloud.Forms.Payloads
import IncusCloud.Forms.Proofs.Limits

/-!
# What an unedited form saves

Of every key of a config one can say what the payload writes there, whichever of its tables writes
it: `savedValue`. So the order of the tables does not matter, and the config is kept when
`savedValue` is what stood at each key.
-/

namespace IncusCloud.Forms

open Lib List
open Fields (ofMap spreads)
open OrdMap (isSome_get mem_of_get)
open String (ofList toList_append)

variable {J : Type} {f k : String} {item : Item J}

/-! ### The keys of the tables -/

def numberKeys : List String := ["limits.disk.priority", "limits.processes", "security.idmap.size"]

def parsedKeys : List String := ["limits.cpu", "limits.memory"] ++ numberKeys

def savedValue (item : Item J) (k : String) : Option String :=
  if k = "limits.cpu" then cpuLimitToPayload (parseCpuLimit (item.config.get k))
  else if k = "limits.memory" then memoryLimitToPayload (parseMemoryLimit (item.config.get k))
  else if k ∈ numberKeys then (parseNumber (item.config.get k)).map numberText
  else if startsWith sshKeyPrefix k then (sshKeyPayload (getEditValues item)).read k
  else item.config.get k

/-- The elements of a list from `s.1` on, `s.2` of them, for each `s`. -/
def slices {α : Type} (ss : List (ℕ × ℕ)) (l : List α) : List α := ss.flatMap fun s => (l.drop s.1).take s.2

theorem mem_of_mem_slices {α : Type} {ss : List (ℕ × ℕ)} {l : List α} {a : α}
    (h : a ∈ slices ss l) : a ∈ l := by
  obtain ⟨s, -, ha⟩ := mem_flatMap.mp h
  exact mem_of_mem_drop (mem_of_mem_take ha)

def parsedFields : List String :=
  ["limits_cpu", "limits_memory", "limits_disk_priority", "limits_processes", "security_idmap_size"]

def textFields : List String :=
  ["placement_group"] ++ ["limits_memory_swap"] ++ resourceLimitsFields ++ securityProtectionFields ++
    securityPoliciesFields ++ snapshotsFields ++ migrationFields ++ nvidiaFields ++ ociFields ++
      rawConfigFields ++
    bootFields ++ cloudInitFields

theorem configFields_subset {e : String × String} (he : e ∈ configFields) :
    e ∈ instanceConfigFormFieldsToPayload := by
  have hslices : configFields = slices
      [(3, 1), (6, 13), (21, 1), (19, 2), (22, 2), (25, 43), (71, 1), (68, 3), (72, 33)]
      instanceConfigFormFieldsToPayload := rfl
  rw [hslices] at he
  exact mem_of_mem_slices he

theorem textFields_subset (hf : f ∈ textFields) : f ∈ configFields.map (·.1) := by
  have hslices : textFields = slices
      [(13, 1), (0, 13), (14, 21), (36, 1), (35, 1), (37, 20), (60, 1), (59, 1), (57, 2), (61, 38)]
      (configFields.map (·.1)) := rfl
  rw [hslices] at hf
  exact mem_of_mem_slices hf

theorem written_of_field (hf : f ∈ instanceConfigFormFieldsToPayload.map (·.1)) :
    f ∈ parsedFields ++ textFields ∨ f = "rootStorage" := by
  have hslices : instanceConfigFormFieldsToPayload.map (·.1) = slices
      [(104, 1), (0, 2), (6, 1), (2, 2), (7, 12), (5, 1), (20, 2), (19, 1), (22, 2), (4, 1),
        (24, 16), (41, 1),
        (40, 1), (42, 20), (64, 2), (63, 1), (62, 1), (66, 1), (68, 3), (67, 1), (71, 33)]
      (parsedFields ++ textFields ++ ["rootStorage"]) := rfl
  rw [hslices] at hf
  exact (mem_append.mp (mem_of_mem_slices hf)).imp_right mem_singleton.mp

theorem nodup_fields : (instanceConfigFormFieldsToPayload.map (·.1)).Nodup := by
  have hpairs : (instanceConfigFormFieldsToPayload.map (·.1)).Pairwise fun a b =>
      (a.utf8ByteSize == b.utf8ByteSize && a == b) = false := by decide
  apply hpairs.imp
  rintro a _ h rfl
  simp at h

/-- The kernel compares UTF-8 much faster than characters. -/
def utf8 (s : String) : List UInt8 := s.toByteArray.data.toList

theorem startsWith_eq_false {p s : String} (h : (utf8 p).isPrefixOf (utf8 s) = false) :
    startsWith p s = false := by
  by_contra hp
  rw [Bool.not_eq_false] at hp
  obtain ⟨r, hr⟩ := isPrefixOf_iff_prefix.mp hp
  have hs : s = p ++ ofList r := by
    rw [← String.toList_inj, toList_append, String.toList_ofList, hr]
  have hutf8 : utf8 s = utf8 p ++ utf8 (ofList r) := by
    rw [hs, utf8, String.toByteArray_append, ByteArray.data_append, Array.toList_append]
    rfl
  rw [hutf8, isPrefixOf_iff_prefix.mpr (prefix_append _ _)] at h
  contradiction

set_option maxRecDepth 4000 in
/-- The keys of the table are no SSH keys and no properties. -/
theorem handled_keys : ∀ k ∈ getConfigKeys,
    startsWith sshKeyPrefix k = false ∧ isUserProperty k = false ∧ isCredential k = false := by
  have hutf8 : ∀ k ∈ getConfigKeys, (utf8 sshKeyPrefix).isPrefixOf (utf8 k) = false ∧
      ((utf8 userPropPrefix).isPrefixOf (utf8 k) = false ∨ k ∈ reservedUserKeys) ∧
        ∀ p ∈ credentialPrefixes, (utf8 p).isPrefixOf (utf8 k) = false := by decide
  intro k hk
  obtain ⟨hssh, huser, hcredential⟩ := hutf8 k hk
  refine ⟨startsWith_eq_false hssh, ?_, any_eq_false.mpr fun p hp => ?_⟩
  · rcases huser with huser | hreserved
    · rw [isUserProperty, startsWith_eq_false huser, Bool.false_and]
    · rw [isUserProperty, contains_iff_mem.mpr hreserved, Bool.not_true, Bool.and_false]
  · rw [startsWith_eq_false (hcredential p hp)]
    exact Bool.false_ne_true

theorem mem_getConfigKeys_of_parsed : ∀ k ∈ parsedKeys, k ∈ getConfigKeys := by decide

theorem configFields_not_parsed : ∀ e ∈ configFields, e.2 ∉ parsedKeys := by decide

/-- Only `rootStorage` has no key. -/
theorem rootStorage_of_no_key {e : String × String}
    (he : e ∈ instanceConfigFormFieldsToPayload) (hempty : e.2 = "") : e.1 = "rootStorage" := by
  have hkeyless : instanceConfigFormFieldsToPayload.filter (fun e => e.2 = "") =
      [("rootStorage", "")] := by decide
  have hmem : e ∈ instanceConfigFormFieldsToPayload.filter fun e => e.2 = "" :=
    mem_filter.mpr ⟨he, decide_eq_true hempty⟩
  rw [hkeyless] at hmem
  rw [mem_singleton.mp hmem]

theorem map_parsedFields : parsedFields.map getInstanceField = parsedKeys := rfl

theorem rootStorage_not_written : "rootStorage" ∉ parsedFields ++ textFields := by decide

theorem parsedFields_subset :
    ∀ f ∈ parsedFields, (f, getInstanceField f) ∈ instanceConfigFormFieldsToPayload := by decide

theorem getInstanceField_of_mem (h : (f, k) ∈ instanceConfigFormFieldsToPayload) :
    getInstanceField f = k := by
  unfold getInstanceField
  rw [OrdMap.get_of_mem nodup_fields h]
  rfl

theorem text_key (hf : f ∈ textFields) : configFields.get f = some (getInstanceField f) ∧
    getInstanceField f ∉ parsedKeys ∧ startsWith sshKeyPrefix (getInstanceField f) = false := by
  obtain ⟨k, hk⟩ := Option.isSome_iff_exists.mp ((isSome_get configFields f).mpr (textFields_subset hf))
  have hmem := mem_of_get hk
  have htable := configFields_subset hmem
  rw [getInstanceField_of_mem htable]
  exact ⟨hk, configFields_not_parsed (f, k) hmem, (handled_keys k (mem_map_of_mem htable)).1⟩

theorem savedValue_eq_get (item : Item J) (hk : k ∉ parsedKeys)
    (hssh : startsWith sshKeyPrefix k = false) : savedValue item k = item.config.get k := by
  simp only [parsedKeys, mem_append, mem_cons, not_mem_nil, or_false, not_or] at hk
  obtain ⟨⟨hcpu, hmemory⟩, hnumber⟩ := hk
  unfold savedValue
  rw [if_neg hcpu, if_neg hmemory, if_neg hnumber, hssh]
  rfl

theorem savedValue_ssh (item : Item J) (hssh : startsWith sshKeyPrefix k = true) :
    savedValue item k = (sshKeyPayload (getEditValues item)).read k := by
  have hk : k ∉ parsedKeys := by
    intro hk
    have hfalse := (handled_keys k (mem_getConfigKeys_of_parsed k hk)).1
    rw [hssh] at hfalse
    contradiction
  simp only [parsedKeys, mem_append, mem_cons, not_mem_nil, or_false, not_or] at hk
  obtain ⟨⟨hcpu, hmemory⟩, hnumber⟩ := hk
  unfold savedValue
  rw [if_neg hcpu, if_neg hmemory, if_neg hnumber, if_pos hssh]

theorem read_fields (item : Item J) (h : configFields.get f = some k) :
    (getEditValues item).fields.read f = item.config.get k := by
  have hread := Fields.read_map configFields item.config.get f
  rw [h] at hread
  exact hread

theorem texts_agrees (item : Item J) {fs : List String} (h : ∀ f ∈ fs, f ∈ textFields) :
    Fields.Agrees (savedValue item) ((getEditValues item).texts fs) := by
  intro e he
  obtain ⟨f, hf, rfl⟩ := List.mem_map.mp he
  obtain ⟨hget, hparsed, hssh⟩ := text_key (h f hf)
  show (getEditValues item).fields.read f = savedValue item (getInstanceField f)
  rw [read_fields item hget, savedValue_eq_get item hparsed hssh]

/-! ### The tables -/

variable (values : EditValues J)

def tables : List (Fields String String) :=
  [profileDetailConfigPayload values, resourceLimitsPayload values, securityPoliciesPayload values,
    snapshotsPayload values, migrationPayload values, nvidiaPayload values, ociPayload values,
    rawConfigPayload values, bootPayload values, cloudInitPayload values]

theorem EditValues.texts_append (fs gs : List String) :
    values.texts (fs ++ gs) = values.texts fs ++ values.texts gs := map_append

def parsedPayload : Fields String String :=
  [(getInstanceField "limits_cpu", cpuLimitToPayload values.limits_cpu),
    (getInstanceField "limits_memory", memoryLimitToPayload values.limits_memory),
    (getInstanceField "limits_disk_priority", values.limits_disk_priority.map numberText),
    (getInstanceField "limits_processes", values.limits_processes.map numberText),
    (getInstanceField "security_idmap_size", values.security_idmap_size.map numberText)]

variable {e : String × Option String}

theorem mem_tables {values : EditValues J} :
    e ∈ (tables values).flatten ↔ e ∈ values.texts textFields ∨ e ∈ parsedPayload values := by
  simp only [tables, profileDetailConfigPayload, resourceLimitsPayload, securityPoliciesPayload,
    snapshotsPayload,
    migrationPayload, nvidiaPayload, ociPayload, rawConfigPayload, bootPayload, cloudInitPayload, textFields,
    EditValues.texts_append, parsedPayload, flatten_cons, flatten_nil, mem_append, mem_cons,
    not_mem_nil, or_false]
  grind

theorem tables_agrees (item : Item J) : Fields.Agrees (savedValue item)
    (tables (getEditValues item)).flatten := by
  intro e he
  rcases mem_tables.mp he with he | he
  · exact texts_agrees item (fun f hf => hf) e he
  · have hkeys : parsedPayload (getEditValues item) = parsedKeys.map fun k => (k, savedValue item k) := by
      have hparsed := map_parsedFields
      simp only [parsedFields, parsedKeys, numberKeys, map_cons, map_nil, cons_append,
        nil_append, List.cons.injEq, and_true] at hparsed
      obtain ⟨hcpu, hmemory, hpriority, hprocesses, hsize⟩ := hparsed
      unfold parsedPayload
      rw [hcpu, hmemory, hpriority, hprocesses, hsize]
      rfl
    rw [hkeys] at he
    obtain ⟨k, -, rfl⟩ := List.mem_map.mp he
    rfl

theorem mem_keys_tables {values : EditValues J} :
    k ∈ (tables values).flatten.map (·.1) ↔ k ∈ getConfigKeys ∧ k ≠ "" := by
  have hkeys : k ∈ (tables values).flatten.map (·.1) ↔ ∃ f ∈ parsedFields ++ textFields,
    getInstanceField f = k := by
    have hparsed : (parsedPayload values).map (·.1) = parsedFields.map getInstanceField := rfl
    have htexts : (values.texts textFields).map (·.1) = textFields.map getInstanceField := map_map
    have hmem : k ∈ (tables values).flatten.map (·.1) ↔
        k ∈ (values.texts textFields).map (·.1) ∨ k ∈ (parsedPayload values).map (·.1) := by
      simp only [List.mem_map, mem_tables, or_and_right, exists_or]
    rw [hmem, hparsed, htexts, or_comm, ← mem_append, ← map_append, List.mem_map]
  rw [hkeys]
  constructor
  · rintro ⟨f, hf, rfl⟩
    have hfield : (f, getInstanceField f) ∈ instanceConfigFormFieldsToPayload := by
      rcases mem_append.mp hf with hf | hf
      · exact parsedFields_subset f hf
      · exact configFields_subset (mem_of_get (text_key hf).1)
    refine ⟨mem_map_of_mem hfield, fun hempty => ?_⟩
    have hroot := rootStorage_of_no_key hfield hempty
    exact rootStorage_not_written (hroot ▸ hf)
  · rintro ⟨hk, hne⟩
    obtain ⟨e, he, rfl⟩ := List.mem_map.mp hk
    refine ⟨e.1, ?_, getInstanceField_of_mem he⟩
    apply (written_of_field (mem_map_of_mem he)).resolve_right
    intro hroot
    apply hne
    rw [← getInstanceField_of_mem he, hroot]
    rfl

/-! ### Prefixes -/

theorem startsWith_iff (p s : String) : startsWith p s = true ↔ ∃ r, s.toList = p.toList ++ r := by
  unfold startsWith
  rw [ isPrefixOf_iff_prefix]
  constructor
  · rintro ⟨r, hr⟩
    exact ⟨r, hr.symm⟩
  · rintro ⟨r, hr⟩
    exact ⟨r, hr.symm⟩

theorem startsWith_disjoint {p q s : String} (hs : startsWith p s = true)
    (hpq : startsWith p q = false) (hqp : startsWith q p = false) : startsWith q s = false := by
  by_contra hq
  rw [Bool.not_eq_false] at hq
  unfold startsWith at hs hq hpq hqp
  rw [ isPrefixOf_iff_prefix] at hs hq
  rcases prefix_or_prefix_of_prefix hs hq with h | h
  · rw [ isPrefixOf_iff_prefix.mpr h] at hpq
    contradiction
  · rw [ isPrefixOf_iff_prefix.mpr h] at hqp
    contradiction

theorem not_ssh_of_user (hk : isUserProperty k = true) : startsWith sshKeyPrefix k = false := by
  unfold isUserProperty at hk
  rw [Bool.and_eq_true] at hk
  exact startsWith_disjoint hk.1 (by decide) (by decide)

theorem not_ssh_of_credential (hk : isCredential k = true) : startsWith sshKeyPrefix k = false := by
  obtain ⟨p, hp, hk⟩ := any_eq_true.mp hk
  have hdisjoint : ∀ p ∈ credentialPrefixes, startsWith p sshKeyPrefix = false ∧
    startsWith sshKeyPrefix p = false := by
    decide
  exact startsWith_disjoint hk (hdisjoint p hp).1 (hdisjoint p hp).2

/-! ### Entries of a config -/

theorem Config.get_of_mem (c : Config) {e : String × String} (he : e ∈ c.entries) : c.get e.1 = some e.2 :=
  OrdMap.get_of_mem c.nodup he

structure PassedOn (item : Item J) (e : String × Option String) : Prop where
  value : e.2 = item.config.get e.1
  mem : e.1 ∈ item.config.entries.map (·.1)
  unhandled : e.1 ∉ getConfigKeys
  notSsh : startsWith sshKeyPrefix e.1 = false

theorem PassedOn.agrees (h : PassedOn item e) : e.2 = savedValue item e.1 := by
  have hparsed : e.1 ∉ parsedKeys := fun hk => h.unhandled (mem_getConfigKeys_of_parsed e.1 hk)
  rw [savedValue_eq_get item hparsed h.notSsh, h.value]

theorem unhandled_passedOn (item : Item J)
    (he : e ∈ ofMap (getUnhandledKeyValues item.config.entries getConfigKeys)) : PassedOn item e := by
  obtain ⟨x, hx, rfl⟩ := List.mem_map.mp he
  obtain ⟨hx, hkey⟩ := mem_filter.mp hx
  simp only [Bool.and_eq_true, Bool.not_eq_true', contains_eq_mem, decide_eq_false_iff_not] at hkey
  exact ⟨(item.config.get_of_mem hx).symm, mem_map_of_mem hx, hkey.1, hkey.2⟩

theorem assign_eq_spread (result : Fields String String) {properties : List (String × String)}
    (h : ∀ e ∈ properties, e.1 ≠ "__proto__") :
    assign result properties = Fields.spread result (ofMap properties) := by
  induction properties generalizing result with
  | nil => rfl
  | cons e properties ih =>
    have hput : put result e.1 (some e.2) = OrdMap.set result e.1 (some e.2) :=
      if_neg (h e mem_cons_self)
    have hassign : assign result (e :: properties) = assign (put result e.1 (some e.2)) properties := rfl
    rw [hassign, hput, ih _ fun e he => h e (mem_cons_of_mem _ he)]
    rfl

theorem assign_cleared_passedOn (item : Item J) {p : String → Bool} (hproto : p "__proto__" = false)
    (hp : ∀ k, p k = true → k ∉ getConfigKeys ∧ startsWith sshKeyPrefix k = false)
    (he : e ∈ assign (cleared item.config p) (item.config.entries.filter fun e => p e.1)) :
      PassedOn item e := by
  rw [assign_eq_spread] at he
  · rcases Fields.mem_spread he with he | ⟨he, hnot⟩
    · obtain ⟨x, hx, rfl⟩ := List.mem_map.mp he
      obtain ⟨hx, hkey⟩ := mem_filter.mp hx
      exact ⟨(item.config.get_of_mem hx).symm, mem_map_of_mem hx, (hp x.1 hkey).1, (hp x.1 hkey).2⟩
    · -- each cleared key is assigned
      obtain ⟨x, hx, rfl⟩ := List.mem_map.mp he
      have hmem : (x.1, some x.2) ∈ ofMap (item.config.entries.filter fun e => p e.1) :=
        mem_map_of_mem hx
      exact absurd (mem_map_of_mem hmem) hnot
  · intro x hx hname
    have hkey := (mem_filter.mp hx).2
    rw [hname, hproto] at hkey
    contradiction

theorem userPropertiesPayload_passedOn (item : Item J)
    (he : e ∈ userPropertiesPayload item.config (getEditValues item)) : PassedOn item e := by
  apply assign_cleared_passedOn item (by decide) ?_ he
  intro k hk
  refine ⟨fun hmem => ?_, not_ssh_of_user hk⟩
  rw [(handled_keys k hmem).2.1] at hk
  contradiction

theorem credentialPropertiesPayload_passedOn (item : Item J)
    (he : e ∈ credentialPropertiesPayload item.config (getEditValues item)) : PassedOn item e := by
  have hnamed : ((getEditValues item).credentialProperties.filter fun e => decide (e.1 ≠ "")) =
      item.config.entries.filter fun e => isCredential e.1 := by
    apply filter_eq_self.mpr
    intro x hx
    have hkey := (mem_filter.mp hx).2
    rw [decide_eq_true_iff]
    intro hname
    rw [hname] at hkey
    exact absurd hkey (by decide)
  unfold credentialPropertiesPayload at he
  rw [hnamed] at he
  apply assign_cleared_passedOn item (by decide) ?_ he
  intro k hk
  refine ⟨fun hmem => ?_, not_ssh_of_credential hk⟩
  rw [(handled_keys k hmem).2.2] at hk
  contradiction

/-! ### SSH keys -/

structure SshKeyKept (k v : String) : Prop where
  name : '.' ∉ k.toList.drop sshKeyPrefix.toList.length
  value : ':' ∈ v.toList

def sshEntry (e : String × String) : String × String :=
  let record := parseSshKey e.1 e.2
  (sshKeyPrefix ++ record.name, record.user ++ ":" ++ record.fingerprint.getD "undefined")

theorem sshEntry_key {r : List Char} (hr : k.toList = sshKeyPrefix.toList ++ r) (v : String) :
    (sshEntry (k, v)).1.toList = sshKeyPrefix.toList ++ (cut '.' r).1 := by
  have hsplit : k.toList.splitOn '.' = "cloud-init".toList :: "ssh-keys".toList :: r.splitOn '.' := by
    have hprefix : sshKeyPrefix.toList ++ r =
      "cloud-init".toList ++ '.' :: ("ssh-keys".toList ++ '.' :: r) := rfl
    rw [hr, hprefix, splitOn_append_cons_self_of_not_mem (by decide),
      splitOn_append_cons_self_of_not_mem (by decide)]
  have hname : (split '.' k)[2]? = some (ofList (cut '.' r).1) := by
    unfold split
    rw [hsplit, List.getElem?_map]
    have hthird : ("cloud-init".toList :: "ssh-keys".toList :: r.splitOn '.')[2]? = (r.splitOn '.')[0]? := rfl
    rw [hthird, head_splitOn]
    rfl
  show (sshKeyPrefix ++ ((split '.' k)[2]?).getD "undefined").toList = _
  rw [hname, toList_append, Option.getD_some, String.toList_ofList]

theorem sshEntry_value (k v : String) :
    ':' ∈ (sshEntry (k, v)).2.toList ∧ (':' ∈ v.toList → (sshEntry (k, v)).2 = v) := by
  have hvalue : (sshEntry (k, v)).2 = ofList (cut ':' v.toList).1 ++ ":" ++
      ((cut ':' v.toList).2.map ofList).getD "undefined" := rfl
  have hcolon : ":".toList = [':'] := rfl
  constructor
  · rw [hvalue, toList_append, toList_append, hcolon]
    simp
  · intro hv
    rcases cut_cases ':' v.toList with ⟨hnot, -⟩ | ⟨x, y, -, hxy, hcut⟩
    · exact absurd hv hnot
    · rw [hvalue, hcut]
      apply String.toList_injective
      rw [toList_append, toList_append, hcolon, hxy]
      simp

theorem sshEntry_kept {e : String × String} (he : startsWith sshKeyPrefix e.1 = true) :
    SshKeyKept (sshEntry e).1 (sshEntry e).2 := by
  obtain ⟨r, hr⟩ := (startsWith_iff _ _).mp he
  refine ⟨?_, (sshEntry_value e.1 e.2).1⟩
  have hkey := sshEntry_key hr e.2
  rw [hkey, drop_left]
  intro hdot
  have hall := mem_takeWhile_imp hdot
  simp at hall

theorem sshEntry_eq_self {e : String × String} (he : startsWith sshKeyPrefix e.1 = true)
    (h : SshKeyKept e.1 e.2) : sshEntry e = e := by
  obtain ⟨r, hr⟩ := (startsWith_iff _ _).mp he
  have hname := h.name
  rw [hr, drop_left] at hname
  have hkey : (sshEntry e).1 = e.1 := by
    apply String.toList_injective
    have hkey := sshEntry_key hr e.2
    rw [hkey, cut_of_not_mem hname, hr]
  exact Prod.ext hkey ((sshEntry_value e.1 e.2).2 h.value)

theorem startsWith_sshEntry {e : String × String} (he : startsWith sshKeyPrefix e.1 = true) :
    startsWith sshKeyPrefix (sshEntry e).1 = true := by
  obtain ⟨r, hr⟩ := (startsWith_iff _ _).mp he
  exact (startsWith_iff _ _).mpr ⟨_, sshEntry_key hr e.2⟩

def sshEntries (c : Config) : OrdMap String String := c.entries.filter fun e => startsWith sshKeyPrefix e.1

theorem sshKeyPayload_eq (item : Item J) : sshKeyPayload (getEditValues item) =
    OrdMap.ofList (ofMap ((sshEntries item.config).map sshEntry)) := by
  have hassign : sshKeyPayload (getEditValues item) = assign [] ((sshEntries item.config).map sshEntry) := by
    unfold sshKeyPayload
    have hkeys : (getEditValues item).cloud_init_ssh_keys =
      (sshEntries item.config).map fun e => parseSshKey e.1 e.2 := rfl
    rw [hkeys, map_map]
    rfl
  rw [hassign, assign_eq_spread]
  · rfl
  · intro e he hname
    obtain ⟨x, hx, rfl⟩ := List.mem_map.mp he
    have hssh := startsWith_sshEntry (mem_filter.mp hx).2
    rw [hname] at hssh
    exact absurd hssh (by decide)

theorem mem_sshKeyPayload
    (he : e ∈ sshKeyPayload (getEditValues item)) :
    startsWith sshKeyPrefix e.1 = true ∧ ∃ v, e.2 = some v ∧ SshKeyKept e.1 v := by
  rw [sshKeyPayload_eq] at he
  obtain ⟨x, hx, rfl⟩ := List.mem_map.mp (OrdMap.mem_of_mem_ofList he)
  obtain ⟨y, hy, rfl⟩ := List.mem_map.mp hx
  have hssh := (mem_filter.mp hy).2
  exact ⟨startsWith_sshEntry hssh, _, rfl, sshEntry_kept hssh⟩

theorem sshKeyPayload_agrees (item : Item J) :
    Fields.Agrees (savedValue item) (sshKeyPayload (getEditValues item)) := by
  intro e he
  have hnodup : ((sshKeyPayload (getEditValues item)).map (·.1)).Nodup := by
    rw [sshKeyPayload_eq]
    exact OrdMap.nodup_keys_ofList _
  have hget : OrdMap.get (sshKeyPayload (getEditValues item)) e.1 = some e.2 := OrdMap.get_of_mem hnodup he
  rw [savedValue_ssh item (mem_sshKeyPayload he).1]
  unfold Fields.read
  rw [hget]
  rfl

theorem ssh_kept_iff (item : Item J) :
    (∀ k, startsWith sshKeyPrefix k = true → (sshKeyPayload (getEditValues item)).read k =
      item.config.get k) ↔
      ∀ k v, startsWith sshKeyPrefix k = true → item.config.get k = some v → SshKeyKept k v := by
  constructor
  · intro h k v hssh hv
    have hread := h k hssh
    rw [hv] at hread
    have hget : OrdMap.get (sshKeyPayload (getEditValues item)) k = some (some v) :=
      Option.join_eq_some_iff.mp hread
    obtain ⟨-, v', hv', hkept⟩ := mem_sshKeyPayload (mem_of_get hget)
    rw [Option.some.inj hv']
    exact hkept
  · intro h k hssh
    have hself : (sshEntries item.config).map sshEntry = sshEntries item.config := by
      conv_rhs => rw [← map_id (sshEntries item.config)]
      apply map_congr_left
      intro e he
      obtain ⟨hmem, hkey⟩ := mem_filter.mp he
      exact sshEntry_eq_self hkey (h e.1 e.2 hkey (item.config.get_of_mem hmem))
    have hnodup : ((sshEntries item.config).map (·.1)).Nodup :=
      item.config.nodup.sublist (filter_sublist.map _)
    have hkeys : (ofMap (sshEntries item.config)).map (·.1) = (sshEntries item.config).map (·.1) := by
      unfold ofMap
      rw [map_map]
      rfl
    rw [sshKeyPayload_eq, hself, OrdMap.ofList_eq_self (hkeys ▸ hnodup), Fields.read_ofMap]
    unfold sshEntries
    rw [OrdMap.get_filter, if_pos hssh]
    rfl

/-! ### What is saved -/

/-- What is spread into the config of an instance and of a profile. -/
def savedFields (item : Item J) : List (Fields String String) :=
  tables (getEditValues item) ++
    [sshKeyPayload (getEditValues item),
      ofMap (getUnhandledKeyValues item.config.entries getConfigKeys)]

theorem mem_keys_savedFields : k ∈ (savedFields item).flatten.map (·.1) ↔
    (k ∈ getConfigKeys ∧ k ≠ "") ∨ k ∈ (sshKeyPayload (getEditValues item)).map (·.1) ∨
      k ∈ (getUnhandledKeyValues item.config.entries getConfigKeys).map (·.1) := by
  have hofMap : (ofMap (getUnhandledKeyValues item.config.entries getConfigKeys)).map (·.1) =
      (getUnhandledKeyValues item.config.entries getConfigKeys).map (·.1) := map_map
  unfold savedFields
  rw [flatten_append, map_append, mem_append, mem_keys_tables, flatten_cons, flatten_cons,
    flatten_nil, append_nil, map_append, mem_append, hofMap]

theorem mem_keys_unhandled {v : String} (hv : item.config.get k = some v) (hk : k ∉ getConfigKeys)
    (hssh : startsWith sshKeyPrefix k = false) :
    k ∈ (getUnhandledKeyValues item.config.entries getConfigKeys).map (·.1) := by
  apply mem_map_of_mem (f := (·.1)) (a := (k, v))
  apply mem_filter.mpr
  refine ⟨mem_of_get hv, ?_⟩
  simp [hk, hssh]

theorem read_saved (item : Item J) {extra : List (Fields String String)}
    (hextra : ∀ f ∈ extra, ∀ e ∈ f, PassedOn item e) (k : String) :
    (spreads (savedFields item ++ extra)).read k = if k = "" then none else savedValue item k := by
  have hagrees : ∀ f ∈ savedFields item ++ extra, Fields.Agrees (savedValue item) f := by
    intro f hf e he
    rcases mem_append.mp hf with hf | hf
    · rcases mem_append.mp hf with hf | hf
      · exact tables_agrees item e (mem_flatten.mpr ⟨f, hf, he⟩)
      · rcases mem_cons.mp hf with rfl | hf
        · exact sshKeyPayload_agrees item e he
        · rw [mem_singleton] at hf
          subst hf
          exact (unhandled_passedOn item he).agrees
    · exact (hextra f hf e he).agrees
  have hempty : "" ∈ getConfigKeys := by
    have hroot : ("rootStorage", "") ∈ instanceConfigFormFieldsToPayload := mem_cons_self
    exact mem_map_of_mem hroot
  have hwrites : k ∈ (savedFields item ++ extra).flatten.map (·.1) ↔
      ((k ∈ getConfigKeys ∧ k ≠ "") ∨ k ∈ (sshKeyPayload (getEditValues item)).map (·.1) ∨
        k ∈ (getUnhandledKeyValues item.config.entries getConfigKeys).map (·.1)) ∨
          k ∈ extra.flatten.map (·.1) := by
    rw [flatten_append, map_append, mem_append, mem_keys_savedFields]
  rw [Fields.read_spreads hagrees]
  by_cases hk : k = ""
  · -- No table, no SSH key and nothing that is passed on has this key.
    rw [if_pos hk, if_neg]
    subst hk
    rw [hwrites]
    rintro ((⟨-, hne⟩ | hssh | hunhandled) | hextraKey)
    · exact hne rfl
    · obtain ⟨e, he, hkey⟩ := List.mem_map.mp hssh
      have hprefix := (mem_sshKeyPayload he).1
      rw [hkey] at hprefix
      exact absurd hprefix (by decide)
    · obtain ⟨e, he, hkey⟩ := List.mem_map.mp hunhandled
      have hpassed := unhandled_passedOn item (mem_map_of_mem (f := fun e => (e.1, some e.2)) he)
      exact hpassed.unhandled (hkey ▸ hempty)
    · obtain ⟨e, he, hkey⟩ := List.mem_map.mp hextraKey
      obtain ⟨f, hf, he⟩ := mem_flatten.mp he
      exact (hextra f hf e he).unhandled (hkey ▸ hempty)
  · rw [if_neg hk]
    split_ifs with hwritten
    · rfl
    · -- What nothing writes is not in the config.
      rw [hwrites] at hwritten
      simp only [not_or] at hwritten
      obtain ⟨⟨htable, hssh, hunhandled⟩, -⟩ := hwritten
      have hhandled : k ∉ getConfigKeys := fun hmem => htable ⟨hmem, hk⟩
      by_cases hprefix : startsWith sshKeyPrefix k = true
      · rw [savedValue_ssh item hprefix]
        unfold Fields.read
        have hnone : OrdMap.get (sshKeyPayload (getEditValues item)) k = none := by
          by_contra hsome
          exact hssh ((isSome_get _ k).mp (Option.isSome_iff_ne_none.mpr hsome))
        rw [hnone]
        rfl
      · rw [Bool.not_eq_true] at hprefix
        rw [savedValue_eq_get item (fun hp => hhandled (mem_getConfigKeys_of_parsed k hp)) hprefix]
        cases hv : item.config.get k with
        | none => rfl
        | some v => exact absurd (mem_keys_unhandled hv hhandled hprefix) hunhandled

/-! ### When nothing is lost -/

structure ConfigKept (c : Config) : Prop where
  noEmpty : c.get "" = none
  cpu : ∀ v, c.get "limits.cpu" = some v → CpuKept v
  memory : ∀ v, c.get "limits.memory" = some v → MemoryKept v
  numbers : ∀ k ∈ numberKeys, ∀ v, c.get k = some v → NumberKept v
  sshKeys : ∀ k v, startsWith sshKeyPrefix k = true → c.get k = some v → SshKeyKept k v

theorem savedValue_number (item : Item J) (hk : k ∈ numberKeys) :
    savedValue item k = (parseNumber (item.config.get k)).map numberText := by
  have hother : ∀ k ∈ numberKeys, k ≠ "limits.cpu" ∧ k ≠ "limits.memory" := by decide
  obtain ⟨hcpu, hmemory⟩ := hother k hk
  unfold savedValue
  rw [if_neg hcpu, if_neg hmemory, if_pos hk]

theorem savedValue_cpu (item : Item J) :
    savedValue item "limits.cpu" =
      cpuLimitToPayload (parseCpuLimit (item.config.get "limits.cpu")) := if_pos rfl

theorem savedValue_memory (item : Item J) :
    savedValue item "limits.memory" =
      memoryLimitToPayload (parseMemoryLimit (item.config.get "limits.memory")) := by
  have hother : "limits.memory" ≠ "limits.cpu" := by decide
  unfold savedValue
  rw [if_neg hother, if_pos rfl]

theorem config_kept_iff (item : Item J) {extra : List (Fields String String)}
    (hextra : ∀ f ∈ extra, ∀ e ∈ f, PassedOn item e) :
    Fields.Same (spreads (savedFields item ++ extra)) item.config.entries ↔ ConfigKept item.config := by
  have hsame : Fields.Same (spreads (savedFields item ++ extra)) item.config.entries ↔
      ∀ k, (if k = "" then none else savedValue item k) = item.config.get k := by
    refine forall_congr' fun k => ?_
    rw [read_saved item hextra]
    rfl
  rw [hsame]
  constructor
  · intro h
    have hsaved : ∀ k, k ≠ "" → savedValue item k = item.config.get k := by
      intro k hk
      rw [← h k, if_neg hk]
    have hkey : ∀ k ∈ parsedKeys, k ≠ "" := by decide
    refine ⟨?_, fun v hv => ?_, fun v hv => ?_, fun k hk v hv => ?_, ?_⟩
    · rw [← h ""]
      rfl
    · have hcpu := hsaved "limits.cpu" (by decide)
      rw [savedValue_cpu, hv] at hcpu
      exact (cpu_kept_iff v).mp hcpu
    · have hmemory := hsaved "limits.memory" (by decide)
      rw [savedValue_memory, hv] at hmemory
      exact (memory_kept_iff v).mp hmemory
    · have hnumber := hsaved k (hkey k (mem_append_right _ hk))
      rw [savedValue_number item hk, hv] at hnumber
      exact (number_kept_iff v).mp hnumber
    · apply (ssh_kept_iff item).mp
      intro k hssh
      rw [← savedValue_ssh item hssh]
      apply hsaved
      rintro rfl
      exact absurd hssh (by decide)
  · intro h k
    by_cases hk : k = ""
    · rw [if_pos hk, hk, h.noEmpty]
    · rw [if_neg hk]
      by_cases hparsed : k ∈ parsedKeys
      · rcases mem_append.mp hparsed with hlimit | hnumber
        · simp only [mem_cons, not_mem_nil, or_false] at hlimit
          rcases hlimit with rfl | rfl
          · rw [savedValue_cpu]
            cases hv : item.config.get "limits.cpu" with
            | none => rfl
            | some v => exact (cpu_kept_iff v).mpr (h.cpu v hv)
          · rw [savedValue_memory]
            cases hv : item.config.get "limits.memory" with
            | none => rfl
            | some v => exact (memory_kept_iff v).mpr (h.memory v hv)
        · rw [savedValue_number item hnumber]
          cases hv : item.config.get k with
          | none => rfl
          | some v => exact (number_kept_iff v).mpr (h.numbers k hnumber v hv)
      · by_cases hssh : startsWith sshKeyPrefix k = true
        · rw [savedValue_ssh item hssh]
          exact (ssh_kept_iff item).mpr h.sshKeys k hssh
        · rw [Bool.not_eq_true] at hssh
          exact savedValue_eq_get item hparsed hssh

theorem rest_kept_iff {rest : OrdMap String J} (hnodup : (rest.map (·.1)).Nodup) {detail : List String}
    (hdetail : ∀ k ∈ detail ++ ["devices", "config"], startsWith sshKeyPrefix k = false) :
    (∀ k v, k ≠ "config" → k ≠ "devices" → rest.get k = some v →
      (Fields.spread (Fields.pick rest detail)
        (ofMap (getUnhandledKeyValues rest (detail ++ ["devices", "config"])))).read k = some v) ↔
      ∀ k, startsWith sshKeyPrefix k = true → rest.get k = none := by
  have hkeys : ((ofMap (getUnhandledKeyValues rest (detail ++ ["devices", "config"]))).map (·.1)) =
      (getUnhandledKeyValues rest (detail ++ ["devices", "config"])).map (·.1) := map_map
  have hnodup' :
    ((ofMap (getUnhandledKeyValues rest (detail ++ ["devices", "config"]))).map (·.1)).Nodup := by
    rw [hkeys]
    exact hnodup.sublist (filter_sublist.map _)
  have hget : ∀ k, OrdMap.get (getUnhandledKeyValues rest (detail ++ ["devices", "config"])) k =
      if (!(detail ++ ["devices", "config"]).contains k && !startsWith sshKeyPrefix k) = true then rest.get k
      else none :=
    fun k => OrdMap.get_filter rest (fun k => !(detail ++ ["devices", "config"]).contains k &&
      !startsWith sshKeyPrefix k) k
  constructor
  · intro h k hssh
    cases hv : rest.get k with
    | none => rfl
    | some v =>
      have hnot : k ∉ detail ++ ["devices", "config"] := by
        intro hmem
        rw [hdetail k hmem] at hssh
        contradiction
      have hread := h k v (fun hk => hnot (by simp [hk])) (fun hk => hnot (by simp [hk])) hv
      have hgone := hget k
      rw [hssh, Bool.not_true, Bool.and_false, if_neg Bool.false_ne_true] at hgone
      have hnotMem : k ∉ (getUnhandledKeyValues rest (detail ++ ["devices", "config"])).map (·.1) := by
        intro hmem
        have hsome := (isSome_get _ k).mpr hmem
        rw [hgone] at hsome
        contradiction
      rw [Fields.read_spread _ hnodup', hkeys, if_neg hnotMem, Fields.read_pick,
        if_neg fun hmem => hnot (mem_append_left _ hmem)] at hread
      contradiction
  · intro h k v hconfig hdevices hv
    have hssh : startsWith sshKeyPrefix k = false := by
      by_contra hssh
      rw [Bool.not_eq_false] at hssh
      rw [h k hssh] at hv
      contradiction
    have hwrites : k ∈ (ofMap (getUnhandledKeyValues rest (detail ++ ["devices", "config"]))).map (·.1) ↔
        k ∉ detail := by
      rw [hkeys, ← isSome_get, hget k, hssh]
      by_cases hmem : k ∈ detail
      · simp [hmem]
      · simp [hmem, hconfig, hdevices, hv]
    rw [Fields.read_spread _ hnodup']
    split_ifs with hmem
    · rw [Fields.read_ofMap, hget k, hssh]
      simp [hwrites.mp hmem, hconfig, hdevices, hv]
    · rw [hwrites, not_not] at hmem
      rw [Fields.read_pick, if_pos hmem, hv]

/-- The payload has the config and the other top-level keys that the instance or the profile had. -/
structure Keeps (i : Item J) (payload : Payload J) : Prop where
  config : Fields.Same payload.config i.config.entries
  rest : ∀ k v, k ≠ "config" → k ≠ "devices" → OrdMap.get i.rest k = some v → payload.rest.read k = some v

structure ItemKept (i : Item J) : Prop where
  config : ConfigKept i.config
  rest : ∀ k, startsWith sshKeyPrefix k = true → OrdMap.get i.rest k = none

variable (i : Item J)

theorem texts_getInstanceEditValues (fs : List String) :
    (getInstanceEditValues i).texts fs = (getEditValues i).texts fs := rfl

theorem tables_getInstanceEditValues : tables (getInstanceEditValues i) = tables (getEditValues i) := by
  have hlimits : resourceLimitsPayload (getInstanceEditValues i) =
    resourceLimitsPayload (getEditValues i) := by
    unfold resourceLimitsPayload
    simp only [texts_getInstanceEditValues]
    rfl
  have hsecurity : securityPoliciesPayload (getInstanceEditValues i) =
    securityPoliciesPayload (getEditValues i) := by
    unfold securityPoliciesPayload
    simp only [texts_getInstanceEditValues]
    rfl
  unfold tables
  rw [hlimits, hsecurity]
  simp only [profileDetailConfigPayload, snapshotsPayload, migrationPayload, nvidiaPayload,
    ociPayload, rawConfigPayload, bootPayload, cloudInitPayload, texts_getInstanceEditValues]

theorem instance_config : (getInstancePayload i (getInstanceEditValues i)).config =
    spreads (savedFields i ++
      [userPropertiesPayload i.config (getEditValues i),
        credentialPropertiesPayload i.config (getEditValues i)]) := by
  have hspread : (getInstancePayload i (getInstanceEditValues i)).config =
      spreads (tables (getInstanceEditValues i) ++
        [sshKeyPayload (getInstanceEditValues i),
          ofMap (getUnhandledKeyValues i.config.entries getConfigKeys)] ++
        [userPropertiesPayload i.config (getInstanceEditValues i),
          credentialPropertiesPayload i.config (getInstanceEditValues i)]) := rfl
  rw [hspread, tables_getInstanceEditValues]
  rfl

theorem instance_config_kept_iff :
    Fields.Same (getInstancePayload i (getInstanceEditValues i)).config i.config.entries ↔
      ConfigKept i.config := by
  have hextra : ∀ f ∈ [userPropertiesPayload i.config (getEditValues i),
      credentialPropertiesPayload i.config (getEditValues i)], ∀ e ∈ f, PassedOn i e := by
    intro f hf e he
    simp only [mem_cons, not_mem_nil, or_false] at hf
    rcases hf with rfl | rfl
    · exact userPropertiesPayload_passedOn i he
    · exact credentialPropertiesPayload_passedOn i he
  rw [instance_config]
  exact config_kept_iff i hextra

theorem profile_config_kept_iff (p : Item J) :
    Fields.Same (getProfilePayload p (getProfileEditValues p)).config p.config.entries ↔
      ConfigKept p.config := by
  have hextra : ∀ f ∈ ([] : List (Fields String String)), ∀ e ∈ f, PassedOn p e := fun f hf => nomatch hf
  have hconfig : (getProfilePayload p (getProfileEditValues p)).config = spreads (savedFields p ++ []) := by
    rw [append_nil]
    rfl
  rw [hconfig]
  exact config_kept_iff p hextra

/-- Saving without edits loses nothing exactly when the form gives back what it reads. -/
theorem unedited_kept_iff :
    (∀ i : Item J, Keeps i (getInstancePayload i (getInstanceEditValues i)) ↔ ItemKept i) ∧
      ∀ p : Item J, Keeps p (getProfilePayload p (getProfileEditValues p)) ↔ ItemKept p := by
  constructor
  · intro i
    have hdetail : ∀ k ∈ ["name", "description", "type", "profiles"] ++ ["devices", "config"],
        startsWith sshKeyPrefix k = false := by decide
    have hrest := rest_kept_iff i.nodup hdetail
    constructor
    · exact fun h => ⟨(instance_config_kept_iff i).mp h.config, hrest.mp h.rest⟩
    · exact fun h => ⟨(instance_config_kept_iff i).mpr h.config, hrest.mpr h.rest⟩
  · intro p
    have hdetail : ∀ k ∈ ["name", "description"] ++ ["devices", "config"],
      startsWith sshKeyPrefix k = false := by
      decide
    have hrest := rest_kept_iff p.nodup hdetail
    constructor
    · exact fun h => ⟨(profile_config_kept_iff p).mp h.config, hrest.mp h.rest⟩
    · exact fun h => ⟨(profile_config_kept_iff p).mpr h.config, hrest.mpr h.rest⟩

def dottedKey : Config := ⟨[("cloud-init.ssh-keys.my.key", "root:ssh-rsa A")], by decide⟩

theorem dotted_key_lost : ¬ ∀ i : Item Unit, (∀ e ∈ i.config.entries, e.2 ≠ "") →
    Keeps i (getInstancePayload i (getInstanceEditValues i)) := by
  intro h
  have hkeeps := h ⟨[], nodup_nil, dottedKey, []⟩ (by decide)
  have hkept := (instance_config_kept_iff _).mp hkeeps.config
  have hssh := hkept.sshKeys "cloud-init.ssh-keys.my.key" "root:ssh-rsa A" (by decide) rfl
  exact absurd hssh.name (by decide)

end IncusCloud.Forms
