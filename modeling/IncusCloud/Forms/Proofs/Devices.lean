import IncusCloud.Forms.Devices

/-!
# Which devices an unchanged form keeps

A device comes back as it was from the form unless its kind has keys the form has no place for
(`kept_device_iff`): a NIC that Incus gives no other key than those the form knows loses its `name`
and `hwaddr`, and what goes with the other way to attach it; the kinds that are spread lose their
own `name`; and a size that is no number is dropped.
-/

namespace IncusCloud.Forms

open Lib Option
open Fields (pick ofMap read_ofMap read_pick read_erase_of_none)
open OrdMap (isSome_get get ofList)

def SizeKept (d : Device) : Prop := ∀ size, d.get "size" = some size → startsWithDigit size = true

def keptWhole (name : String) (d : Device) : Bool :=
  isCustomNic d || (isIsoDeviceName name && d.get "type" ≠ some "none")

def KeptDevice (name : String) (d : Device) : Prop :=
  keptWhole name d = true ∨
    match d.get "type" with
    | some "nic" =>
      if hasParent (d.get "parent") then
        name ≠ "" ∧ ∀ k ∈ ["name", "hwaddr", "network", "ipv4.address", "ipv6.address"], d.get k = none
      else
        (name = "" → (d.get "network").any (· ≠ "") = true) ∧
          ∀ k ∈ ["name", "hwaddr", "parent", "nictype"], d.get k = none
    | some "disk" => SizeKept d
    | some "none" => ∀ k, k ≠ "type" → d.get k = none
    | type => type.any (spreadTypes.contains ·) = true → d.get "name" = none ∧ SizeKept d

/-! ### One device -/

def Kept (name : String) (d : Device) : Prop :=
  isEmptyDevice (parseDevice name d) = false ∧
    ∃ p, deviceToPayload (parseDevice name d) = some p ∧ Fields.Same p d

variable {d : Device}

theorem kept_iff {name : String} {x : FormDevice} {p : Fields String String}
    (hparse : parseDevice name d = x) (hp : deviceToPayload x = some p) :
    Kept name d ↔ isEmptyDevice x = false ∧ Fields.Same p d := by
  unfold Kept
  rw [hparse, hp]
  simp

theorem isEmptyDevice_of_ne {x : FormDevice} (h : x.item.read "type" ≠ some "nic") : isEmptyDevice x = false := by
  unfold isEmptyDevice
  simp [h]

theorem get_of_not_custom (htype : d.get "type" = some "nic") (hcustom : isCustomNic d = false)
    {k : String} (hk : k ∉ standardKeys) : d.get k = none := by
  by_contra hsome
  have hmem := (isSome_get d k).mp (isSome_iff_ne_none.mpr hsome)
  obtain ⟨e, he, rfl⟩ := List.mem_map.mp hmem
  have hany : (d.any fun e => !standardKeys.contains e.1) = true :=
    List.any_eq_true.mpr ⟨e, he, by simpa using hk⟩
  rw [isCustomNic, htype, hany] at hcustom
  exact absurd hcustom (by decide)

theorem nic_keys (htype : d.get "type" = some "nic") (hcustom : isCustomNic d = false)
    {ks lost : List String} (hks : ∀ k ∈ standardKeys, k ∈ ks ∨ k ∈ lost) (hlost : ∀ k ∈ lost, k ∉ ks) :
    Fields.Same (pick d ks) d ↔ ∀ k ∈ lost, d.get k = none := by
  rw [Fields.same_pick]
  constructor
  · exact fun h k hk => h k (hlost k hk)
  · intro h k hk
    by_cases hstd : k ∈ standardKeys
    · exact h k ((hks k hstd).resolve_left hk)
    · exact get_of_not_custom htype hcustom hstd

theorem read_dropSize (item : Fields String String) (k : String) :
    (dropSize item).read k =
      if k = "size" then (item.read "size").filter startsWithDigit else item.read k := by
  unfold dropSize
  have hfilter : (item.read "size").filter startsWithDigit =
      if (item.read "size").any startsWithDigit = true then item.read "size" else none := by
    cases item.read "size" with
    | none => rfl
    | some s => by_cases hs : startsWithDigit s = true <;> simp [hs]
  rw [hfilter]
  by_cases hdigit : (item.read "size").any startsWithDigit = true
  · rw [hdigit, if_pos rfl, Bool.not_true, Bool.and_false, if_neg Bool.false_ne_true]
    split_ifs with hk
    · rw [hk]
    · rfl
  · rw [if_neg hdigit]
    by_cases hin : item.any (·.1 = "size") = true
    · rw [if_pos (by simpa [hin] using hdigit), Fields.read_erase]
    · rw [if_neg (by simp [hin])]
      split_ifs with hk
      · rw [hk]
        have hget : get item "size" = none := by
          by_contra hsome
          have hmem := (isSome_get item "size").mp (isSome_iff_ne_none.mpr hsome)
          obtain ⟨e, he, hkey⟩ := List.mem_map.mp hmem
          exact hin (List.any_eq_true.mpr ⟨e, he, decide_eq_true hkey⟩)
        unfold Fields.read
        rw [hget]
        rfl
      · rfl

theorem same_dropSize {item : Fields String String} :
    Fields.Same (dropSize item) d ↔ (∀ k, k ≠ "size" → item.read k = d.get k) ∧
      (item.read "size").filter startsWithDigit = d.get "size" := by
  constructor
  · intro h
    refine ⟨fun k hk => ?_, ?_⟩
    · have hread := h k
      rwa [read_dropSize, if_neg hk] at hread
    · have hread := h "size"
      rwa [read_dropSize, if_pos rfl] at hread
  · rintro ⟨hother, hsize⟩ k
    rw [read_dropSize]
    split_ifs with hk
    · rw [hk, hsize]
    · exact hother k hk

theorem sizeKept_iff (d : Device) : SizeKept d ↔ (d.get "size").filter startsWithDigit = d.get "size" := by
  unfold SizeKept
  cases d.get "size" with
  | none => simp
  | some s => by_cases hs : startsWithDigit s = true <;> simp [hs]

/-! ### The kinds -/

variable {name : String} {d : Device}

theorem kept_whole (h : keptWhole name d = true) : Kept name d := by
  unfold keptWhole at h
  by_cases hcustom : isCustomNic d = true
  · have hparse : parseDevice name d = ⟨name, [("type", some "custom-nic")], some d⟩ := if_pos hcustom
    refine (kept_iff hparse rfl).mpr ⟨isEmptyDevice_of_ne ?_, read_ofMap d⟩
    exact fun hnic => absurd (some.inj hnic) (by decide)
  · have hiso : (isIsoDeviceName name && d.get "type" ≠ some "none") = true := by simpa [hcustom] using h
    have hparse : parseDevice name d =
        ⟨name, [("type", some isoVolumeType), ("source", d.get "source"), ("pool", d.get "pool")], some d⟩ := by
      unfold parseDevice
      rw [if_neg hcustom, if_pos hiso]
    refine (kept_iff hparse rfl).mpr ⟨isEmptyDevice_of_ne ?_, read_ofMap d⟩
    exact fun hnic => absurd (some.inj hnic) (by decide)

theorem not_whole (h : ¬ keptWhole name d = true) :
    isCustomNic d = false ∧ ¬ (isIsoDeviceName name && d.get "type" ≠ some "none") = true := by
  unfold keptWhole at h
  rw [Bool.or_eq_true] at h
  exact ⟨by simpa using fun hcustom => h (.inl hcustom), fun hiso => h (.inr hiso)⟩

def parentedKeys : List String :=
  ["parent", "nictype", "type", "security.acls", "security.acls.default.egress.action",
    "security.acls.default.ingress.action"]

def unparentedKeys : List String :=
  ["ipv4.address", "ipv6.address", "network", "type", "security.acls",
    "security.acls.default.egress.action", "security.acls.default.ingress.action"]

def diskKeys : List String := ["path", "pool", "source", "size", "type"]

theorem parse_not_whole (h : ¬ keptWhole name d = true) : parseDevice name d =
    if d.get "type" = some "nic" then
      ⟨name, pick d (if hasParent (d.get "parent") then parentedKeys else unparentedKeys), none⟩
    else if d.get "type" = some "disk" then ⟨name, pick d diskKeys, some d⟩
    else if d.get "type" = some "none" then ⟨name, pick d ["type"], none⟩
    else if (d.get "type").any (spreadTypes.contains ·) then ⟨name, (ofMap d).erase "name", none⟩
    else ⟨name, [("type", some "unknown")], some d⟩ := by
  obtain ⟨hcustom, hiso⟩ := not_whole h
  unfold parseDevice
  rw [if_neg (by simp [hcustom]), if_neg hiso]
  split
  · rename_i htype
    rw [if_pos htype]
    split_ifs
    · simp [parentedKeys, pick, htype]
    · simp [unparentedKeys, pick, htype]
  · rename_i htype
    simp [diskKeys, pick, htype]
  · rename_i htype
    simp [pick, htype]
  · rename_i hnic hdisk hnone
    rw [if_neg hnic, if_neg hdisk, if_neg hnone]

theorem payload_eq (item : Fields String String) (bare : Option Device) : deviceToPayload ⟨name, item, bare⟩ =
    if item.read "type" ∈ [some "unknown", some "custom-nic", some "iso-volume"] then bare.map ofMap
    else if item.read "type" = some "nic" then
      if hasParent (item.read "parent") then some (item.erase "network")
      else some ((item.erase "parent").erase "nictype")
    else if item.read "type" = some "disk" then some (dropSize (Fields.spread (ofMap (bare.getD [])) item))
    else some (dropSize item) := by
  unfold deviceToPayload
  split
  · rename_i htype
    rw [htype, if_pos (by decide)]
  · rename_i htype
    rw [htype, if_pos (by decide)]
  · rename_i htype
    rw [htype, if_pos (by decide)]
  · rename_i htype
    have hwhole : some "nic" ∉ [some "unknown", some "custom-nic", some "iso-volume"] := by decide
    rw [htype, if_neg hwhole, if_pos rfl]
  · rename_i htype
    have hwhole : some "disk" ∉ [some "unknown", some "custom-nic", some "iso-volume"] := by decide
    rw [htype, if_neg hwhole, if_neg (by decide), if_pos rfl]
  · rename_i hunknown hcustom hiso hnic hdisk
    have hwhole : item.read "type" ∉ [some "unknown", some "custom-nic", some "iso-volume"] := by
      simp only [List.mem_cons, List.not_mem_nil, or_false, not_or]
      exact ⟨hunknown, hcustom, hiso⟩
    rw [if_neg hwhole, if_neg hnic, if_neg hdisk]

theorem kept_parented (h : ¬ keptWhole name d = true) (htype : d.get "type" = some "nic")
    (hparent : hasParent (d.get "parent") = true) :
    Kept name d ↔
      name ≠ "" ∧ ∀ k ∈ ["name", "hwaddr", "network", "ipv4.address", "ipv6.address"], d.get k = none := by
  obtain ⟨hcustom, -⟩ := not_whole h
  let ks := parentedKeys
  have hparse : parseDevice name d = ⟨name, pick d ks, none⟩ := by
    rw [parse_not_whole h, if_pos htype, if_pos hparent]
  have hread : ∀ k, (pick d ks).read k = if k ∈ ks then d.get k else none := read_pick d ks
  have hnic : (pick d ks).read "type" = some "nic" := by rw [hread, if_pos (by decide), htype]
  have hp : deviceToPayload ⟨name, pick d ks, none⟩ = some ((pick d ks).erase "network") := by
    have hread' : (pick d ks).read "parent" = d.get "parent" := by rw [hread, if_pos (by decide)]
    have hwhole : some "nic" ∉ [some "unknown", some "custom-nic", some "iso-volume"] := by decide
    rw [payload_eq, hnic, if_neg hwhole, if_pos rfl, hread', if_pos hparent]
  have hempty : isEmptyDevice ⟨name, pick d ks, none⟩ = false ↔ name ≠ "" := by
    unfold isEmptyDevice
    simp only [hread]
    simp [ks, parentedKeys, htype]
  have hsame : Fields.Same ((pick d ks).erase "network") d ↔ Fields.Same (pick d ks) d := by
    refine forall_congr' fun k => ?_
    rw [read_erase_of_none]
    rw [hread]
    exact if_neg (by decide)
  rw [kept_iff hparse hp, hempty, hsame, nic_keys htype hcustom]
  · decide
  · decide

theorem kept_unparented (h : ¬ keptWhole name d = true) (htype : d.get "type" = some "nic")
    (hparent : ¬ hasParent (d.get "parent") = true) :
    Kept name d ↔
      (name = "" → (d.get "network").any (· ≠ "") = true) ∧
        ∀ k ∈ ["name", "hwaddr", "parent", "nictype"], d.get k = none := by
  obtain ⟨hcustom, -⟩ := not_whole h
  let ks := unparentedKeys
  have hparse : parseDevice name d = ⟨name, pick d ks, none⟩ := by
    rw [parse_not_whole h, if_pos htype, if_neg hparent]
  have hread : ∀ k, (pick d ks).read k = if k ∈ ks then d.get k else none := read_pick d ks
  have hnic : (pick d ks).read "type" = some "nic" := by rw [hread, if_pos (by decide), htype]
  have hp : deviceToPayload ⟨name, pick d ks, none⟩ =
      some (((pick d ks).erase "parent").erase "nictype") := by
    have hread' : (pick d ks).read "parent" = none := by rw [hread, if_neg (by decide)]
    have hwhole : some "nic" ∉ [some "unknown", some "custom-nic", some "iso-volume"] := by decide
    rw [payload_eq, hnic, if_neg hwhole, if_pos rfl, hread']
    rfl
  have hempty : isEmptyDevice ⟨name, pick d ks, none⟩ = false ↔
      (name = "" → (d.get "network").any (· ≠ "") = true) := by
    unfold isEmptyDevice
    simp only [hread]
    cases d.get "network" <;> simp [ks, unparentedKeys, htype]
  have hsame : Fields.Same (((pick d ks).erase "parent").erase "nictype") d ↔
      Fields.Same (pick d ks) d := by
    have hparentless : (pick d ks).read "parent" = none := (hread _).trans (if_neg (by decide))
    have htypeless : (pick d ks).read "nictype" = none := (hread _).trans (if_neg (by decide))
    refine forall_congr' fun k => ?_
    rw [read_erase_of_none, read_erase_of_none hparentless]
    rw [read_erase_of_none hparentless]
    exact htypeless
  rw [kept_iff hparse hp, hempty, hsame, nic_keys htype hcustom]
  · decide
  · decide

theorem kept_disk (h : ¬ keptWhole name d = true) (htype : d.get "type" = some "disk") :
    Kept name d ↔ SizeKept d := by
  let ks := diskKeys
  have hparse : parseDevice name d = ⟨name, pick d ks, some d⟩ := by
    rw [parse_not_whole h, if_neg (by rw [htype]; decide), if_pos htype]
  have hread : ∀ k, (pick d ks).read k = if k ∈ ks then d.get k else none := read_pick d ks
  have hdisk : (pick d ks).read "type" = some "disk" := by
    rw [hread, if_pos (by decide), htype]
  have hp : deviceToPayload ⟨name, pick d ks, some d⟩ =
      some (dropSize (Fields.spread (ofMap d) (pick d ks))) := by
    rw [payload_eq, hdisk, if_neg (by decide), if_neg (by decide), if_pos rfl]
    rfl
  -- The keys that are read and the device itself are spread over each other.
  have hspread : ∀ k, (Fields.spread (ofMap d) (pick d ks)).read k = d.get k := by
    intro k
    have hkeys : (pick d ks).map (·.1) = ks := by simp [ks, diskKeys, pick]
    rw [Fields.read_spread _ (by rw [hkeys]; decide), hkeys, hread, read_ofMap]
    split_ifs <;> rfl
  have hempty : isEmptyDevice ⟨name, pick d ks, some d⟩ = false := by
    apply isEmptyDevice_of_ne
    rw [hdisk]
    decide
  rw [kept_iff hparse hp, same_dropSize, sizeKept_iff, hspread]
  simp [hempty, hspread]

theorem kept_none (h : ¬ keptWhole name d = true) (htype : d.get "type" = some "none") :
    Kept name d ↔ ∀ k, k ≠ "type" → d.get k = none := by
  have hparse : parseDevice name d = ⟨name, pick d ["type"], none⟩ := by
    rw [parse_not_whole h, if_neg (by rw [htype]; decide), if_neg (by rw [htype]; decide), if_pos htype]
  have hread : ∀ k, (pick d ["type"]).read k = if k ∈ ["type"] then d.get k else none :=
    read_pick d ["type"]
  have hnone : (pick d ["type"]).read "type" = some "none" := by
    rw [hread, if_pos (by decide), htype]
  have hp : deviceToPayload ⟨name, pick d ["type"], none⟩ = some (dropSize (pick d ["type"])) := by
    rw [payload_eq, hnone, if_neg (by decide), if_neg (by decide), if_neg (by decide)]
  have hempty : isEmptyDevice ⟨name, pick d ["type"], none⟩ = false := by
    apply isEmptyDevice_of_ne
    rw [hnone]
    decide
  have hsame : Fields.Same (dropSize (pick d ["type"])) d ↔ Fields.Same (pick d ["type"]) d := by
    refine forall_congr' fun k => ?_
    rw [read_dropSize]
    split_ifs with hk
    · rw [hk, hread]
      simp
    · rfl
  rw [kept_iff hparse hp, hsame, Fields.same_pick]
  simp [hempty]

theorem kept_spread (h : ¬ keptWhole name d = true) {t : String} (htype : d.get "type" = some t)
    (ht : spreadTypes.contains t = true) : Kept name d ↔ d.get "name" = none ∧ SizeKept d := by
  have hread : ∀ k, Fields.read ((ofMap d).erase "name") k = if k = "name" then none else d.get k := by
    intro k
    rw [Fields.read_erase, read_ofMap]
  have hmem : t ∈ spreadTypes := by simpa using ht
  have hne : ∀ s, s ∉ spreadTypes → t ≠ s := fun s hs heq => hs (heq ▸ hmem)
  have hsome : ∀ s, s ∉ spreadTypes → some t ≠ some s := fun s hs heq => hne s hs (some.inj heq)
  have hparse : parseDevice name d = ⟨name, (ofMap d).erase "name", none⟩ := by
    rw [parse_not_whole h, htype, if_neg (hsome "nic" (by decide)), if_neg (hsome "disk" (by decide)),
      if_neg (hsome "none" (by decide)), any_some, if_pos ht]
  have htype' : Fields.read ((ofMap d).erase "name") "type" = some t := by
    rw [hread, if_neg (by decide), htype]
  have hp : deviceToPayload ⟨name, (ofMap d).erase "name", none⟩ =
      some (dropSize ((ofMap d).erase "name")) := by
    have hwhole : some t ∉ [some "unknown", some "custom-nic", some "iso-volume"] := by
      simp [hne "unknown" (by decide), hne "custom-nic" (by decide), hne "iso-volume" (by decide)]
    rw [payload_eq, htype', if_neg hwhole, if_neg (hsome "nic" (by decide)), if_neg (hsome "disk" (by decide))]
  have hempty : isEmptyDevice ⟨name, (ofMap d).erase "name", none⟩ = false := by
    apply isEmptyDevice_of_ne
    rw [htype']
    exact fun hnic => hne "nic" (by decide) (some.inj hnic)
  rw [kept_iff hparse hp, same_dropSize, sizeKept_iff, hread, if_neg (by decide)]
  simp only [hempty, hread, true_and]
  refine and_congr_left fun _ => ?_
  constructor
  · intro hother
    have hname := hother "name" (by decide)
    rw [if_pos rfl] at hname
    exact hname.symm
  · intro hname k _
    split_ifs with hk
    · rw [hk, hname]
    · rfl

theorem kept_unknown (h : ¬ keptWhole name d = true) (hnic : d.get "type" ≠ some "nic")
    (hdisk : d.get "type" ≠ some "disk") (hnone : d.get "type" ≠ some "none")
    (ht : ¬ (d.get "type").any (spreadTypes.contains ·) = true) : Kept name d := by
  have hparse : parseDevice name d = ⟨name, [("type", some "unknown")], some d⟩ := by
    rw [parse_not_whole h, if_neg hnic, if_neg hdisk, if_neg hnone, if_neg ht]
  refine (kept_iff hparse rfl).mpr ⟨isEmptyDevice_of_ne ?_, read_ofMap d⟩
  exact fun hnic => absurd (some.inj hnic) (by decide)

theorem kept_device_iff (name : String) (d : Device) : Kept name d ↔ KeptDevice name d := by
  unfold KeptDevice
  by_cases h : keptWhole name d = true
  · exact iff_of_true (kept_whole h) (.inl h)
  · rw [or_iff_right h]
    split
    · rename_i htype
      split_ifs with hparent
      · exact kept_parented h htype hparent
      · exact kept_unparented h htype hparent
    · rename_i htype
      exact kept_disk h htype
    · rename_i htype
      exact kept_none h htype
    · rename_i hnic hdisk hnone
      by_cases ht : (d.get "type").any (spreadTypes.contains ·) = true
      · obtain ⟨t, htype, hmem⟩ := (Option.any_eq_true _ _).mp ht
        rw [kept_spread h htype hmem]
        simp only [ht, forall_const]
      · exact iff_of_true (kept_unknown h hnic hdisk hnone ht) fun hin => absurd hin ht

/-! ### All devices -/

theorem name_parseDevice (name : String) (d : Device) : (parseDevice name d).name = name := by
  unfold parseDevice
  split
  · rfl
  · split
    · rfl
    · split
      · split <;> rfl
      · rfl
      · rfl
      · split <;> rfl

theorem formDeviceToPayload_eq (devices : List FormDevice) : formDeviceToPayload devices =
    ofList ((devices.filter fun item => !isEmptyDevice item).map fun x => (x.name, deviceToPayload x)) := by
  unfold formDeviceToPayload ofList
  rw [List.foldl_map]

theorem get_formDeviceToPayload (devices : OrdMap String Device) (name : String) :
    ((formDeviceToPayload (parseDevices devices)).get name).join =
      (devices.get name).bind fun d =>
        if isEmptyDevice (parseDevice name d) = true then none else deviceToPayload (parseDevice name d) := by
  let parse := fun key => parseDevice key ((devices.get key).getD [])
  have hentry : (fun x : FormDevice => (x.name, deviceToPayload x)) ∘ parse =
      fun key => (key, deviceToPayload (parse key)) := by
    funext key
    exact Prod.ext (name_parseDevice key _) rfl
  have hlist : formDeviceToPayload (parseDevices devices) =
      ofList (((devices.map (·.1)).filter fun key => !isEmptyDevice (parse key)).map fun key =>
        (key, deviceToPayload (parse key))) := by
    have hfilter : (parseDevices devices).filter (fun item => !isEmptyDevice item) =
        ((devices.map (·.1)).filter fun key => !isEmptyDevice (parse key)).map parse := List.filter_map ..
    rw [formDeviceToPayload_eq, hfilter, List.map_map, hentry]
  rw [hlist, OrdMap.get_ofList_map]
  cases hget : devices.get name with
  | none =>
    have hnot : name ∉ devices.map (·.1) := by
      intro hmem
      have hsome := (isSome_get devices name).mpr hmem
      rw [hget] at hsome
      exact nomatch hsome
    rw [if_neg fun hmem => hnot (List.mem_filter.mp hmem).1]
    rfl
  | some d =>
    have hmem : name ∈ devices.map (·.1) := by
      apply (isSome_get devices name).mp
      rw [hget]
      rfl
    have hparse : parse name = parseDevice name d := by
      show parseDevice name ((devices.get name).getD []) = _
      rw [hget]
      rfl
    have hkey : name ∈ (devices.map (·.1)).filter (fun key => !isEmptyDevice (parse key)) ↔
        ¬ isEmptyDevice (parseDevice name d) = true := by
      rw [List.mem_filter, hparse]
      simp [hmem]
    rw [hparse]
    by_cases hempty : isEmptyDevice (parseDevice name d) = true
    · rw [if_neg fun h => hkey.mp h hempty]
      simp [hempty]
    · rw [if_pos (hkey.mpr hempty)]
      simp [hempty]

theorem keepsDevices_iff (devices : OrdMap String Device) :
    KeepsDevices devices ↔ ∀ name d, devices.get name = some d → Kept name d := by
  refine forall_congr' fun name => ?_
  rw [get_formDeviceToPayload]
  cases devices.get name with
  | none =>
    refine iff_of_true ?_ fun d hd => (nomatch hd)
    exact Option.Rel.none
  | some d =>
    have hone : (∀ x, some d = some x → Kept name x) ↔ Kept name d := by
      constructor
      · exact fun h => h d rfl
      · intro h x hx
        rw [← some.inj hx]
        exact h
    rw [hone, bind_some]
    unfold Kept
    by_cases hempty : isEmptyDevice (parseDevice name d) = true
    · rw [if_pos hempty, hempty]
      refine iff_of_false (nofun) ?_
      exact fun h => nomatch h.1
    · rw [if_neg hempty]
      constructor
      · intro h
        refine ⟨by simpa using hempty, ?_⟩
        cases hp : deviceToPayload (parseDevice name d) with
        | none =>
          rw [hp] at h
          exact nomatch h
        | some p =>
          rw [hp] at h
          cases h with
          | some hsame => exact ⟨p, rfl, hsame⟩
      · rintro ⟨-, p, hp, hsame⟩
        rw [hp]
        exact Option.Rel.some hsame

/-- **An unchanged form keeps the devices** exactly where each of them has only what its kind keeps. -/
theorem devices_kept_iff (devices : OrdMap String Device) :
    KeepsDevices devices ↔ ∀ name d, devices.get name = some d → KeptDevice name d := by
  rw [keepsDevices_iff]
  refine forall_congr' fun name => forall_congr' fun d => ?_
  rw [kept_device_iff]

/-- A bridged NIC with an address of its own: the address is not in the payload. -/
theorem hwaddr_lost :
    ¬ KeepsDevices [("eth0", [("hwaddr", "00:16:3e:00:00:01"), ("network", "br0"), ("type", "nic")])] := by
  rw [keepsDevices_iff]
  intro h
  rcases (kept_device_iff _ _).mp (h "eth0" _ rfl) with hwhole | hkept
  · exact absurd hwhole (by decide)
  · exact absurd (hkept.2 "hwaddr" (by decide)) (by decide)

end IncusCloud.Forms
