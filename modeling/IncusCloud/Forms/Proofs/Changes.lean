import Mathlib.Data.List.Dedup
import IncusCloud.Forms.Payloads
import IncusCloud.Forms.Proofs.Devices

/-!
# When a form counts no changes

Every part of the count is a sum of what differs, but for a device taken for a rename: it adds one
less than the fields in which it differs from the device that was removed. A renamed device differs
in its name, unless it was a root disk, of which only the size and the pool are compared. So the
count is not negative where no root disk is taken for renamed with its size and pool, and at 0
nothing differs that is compared (`count_spec`).
-/

namespace IncusCloud.Forms

open Lib Option
open Fields (read_of_not_mem read_of_mem)
open OrdMap (get isSome_get)

variable {J : Type}

/-! ### Fields -/

namespace FormDevice

variable {a b : FormDevice} {key : String} {device : FormDevice}

theorem field_of_not_mem (h : key ∉ a.keys) : a.field key = none := by
  unfold keys at h
  simp only [List.mem_append, List.mem_singleton, not_or] at h
  obtain ⟨⟨hname, hbare⟩, hitem⟩ := h
  unfold field
  rw [if_neg hname]
  split_ifs with hkey
  · subst hkey
    cases hwhole : a.bare with
    | none => rfl
    | some d =>
      rw [hwhole] at hbare
      simp at hbare
  · rw [read_of_not_mem hitem]
    rfl

theorem field_text (hkey : key ∉ ["name", "bare"]) : a.field key = (a.item.read key).map .text := by
  simp only [List.mem_cons, List.not_mem_nil, or_false, not_or] at hkey
  unfold field
  rw [if_neg hkey.1, if_neg hkey.2]

theorem IsObject.read_own (h : a.IsObject) (hkey : key ∈ ["name", "bare"]) :
    a.item.read key = none := read_of_not_mem (h.others key hkey)

end FormDevice

variable {a b : FormDevice}

theorem fieldChanged_text (hkey : key ∉ ["name", "bare"]) :
    fieldChanged a b key = false ↔ (a.item.read key).getD "" = (b.item.read key).getD "" := by
  have hfield : ∀ x : Option String, (x.map DeviceField.text).getD (.text "") =
    .text (x.getD "") := by
    intro x
    cases x <;> rfl
  unfold fieldChanged
  rw [FormDevice.field_text hkey, FormDevice.field_text hkey, hfield, hfield]
  simp

theorem fieldChanged_name : fieldChanged a b "name" = false ↔ a.name = b.name := by
  have hfield : ∀ x : FormDevice, x.field "name" = some (.text x.name) := fun _ => rfl
  unfold fieldChanged
  rw [hfield, hfield]
  simp

theorem fieldChanged_bare : fieldChanged a b "bare" = false ↔ a.bare = b.bare := by
  have hfield : ∀ x : FormDevice, x.field "bare" = x.bare.map .bare := fun _ => rfl
  unfold fieldChanged
  rw [hfield, hfield]
  cases a.bare <;> cases b.bare <;> simp

/-! ### Pairs of devices -/

def Compared (a : FormDevice) (key : String) : Prop := isRootDisk a = true → key ∈ ["size", "pool"]

theorem pair_eq_zero_iff : getDevicePairFieldChanges a b = 0 ↔ ∀ key, Compared a key →
    fieldChanged a b key = false := by
  unfold getDevicePairFieldChanges
  rw [List.countP_eq_zero]
  constructor
  · intro h key hcompared
    by_cases hmem : key ∈ a.keys ++ b.keys
    · have hkey := h key (List.mem_dedup.mpr hmem)
      by_contra hchanged
      rw [Bool.not_eq_false] at hchanged
      apply hkey
      rw [hchanged, Bool.and_true]
      by_cases hroot : isRootDisk a = true
      · simpa [hroot] using hcompared hroot
      · simp [hroot]
    · -- a key that neither has
      rw [List.mem_append, not_or] at hmem
      unfold fieldChanged
      rw [FormDevice.field_of_not_mem hmem.1, FormDevice.field_of_not_mem hmem.2]
      simp
  · intro h key _ hkey
    rw [Bool.and_eq_true] at hkey
    obtain ⟨hcompared, hchanged⟩ := hkey
    have hsame := h key (fun hroot => by simpa [hroot] using hcompared)
    rw [hsame] at hchanged
    contradiction

theorem pair_zero_of_not_root (hroot : isRootDisk a = false) (ha : a.IsObject) (hb : b.IsObject)
    (h : getDevicePairFieldChanges a b = 0) :
    a.bare = b.bare ∧ ∀ key, (a.item.read key).getD "" = (b.item.read key).getD "" := by
  have hcompared : ∀ key, Compared a key := by
    intro key hdisk
    rw [hroot] at hdisk
    contradiction
  have hsame := pair_eq_zero_iff.mp h
  refine ⟨fieldChanged_bare.mp (hsame "bare" (hcompared "bare")), fun key => ?_⟩
  by_cases hown : key ∈ ["name", "bare"]
  · rw [ha.read_own hown, hb.read_own hown]
  · exact (fieldChanged_text hown).mp (hsame key (hcompared key))

theorem pair_zero_of_root (hroot : isRootDisk a = true) :
    getDevicePairFieldChanges a b = 0 ↔
      ∀ key ∈ ["size", "pool"], (a.item.read key).getD "" = (b.item.read key).getD "" := by
  have htext : ∀ key ∈ ["size", "pool"], key ∉ ["name", "bare"] := by decide
  rw [pair_eq_zero_iff]
  constructor
  · intro h key hkey
    exact (fieldChanged_text (htext key hkey)).mp (h key fun _ => hkey)
  · intro h key hcompared
    have hkey := hcompared hroot
    exact (fieldChanged_text (htext key hkey)).mpr (h key hkey)

theorem pair_pos_of_name (hroot : isRootDisk a = false) (hname : a.name ≠ b.name) :
    0 < getDevicePairFieldChanges a b := by
  apply Nat.pos_of_ne_zero
  intro hzero
  have hcompared : Compared a "name" := by
    intro hdisk
    rw [hroot] at hdisk
    contradiction
  exact hname (fieldChanged_name.mp (pair_eq_zero_iff.mp hzero "name" hcompared))

/-! ### What is written of a pair -/

/-- Two objects are the same where an absent text counts as an empty one. -/
def SameFilled (x y : Fields String String) : Prop := ∀ key,
    (x.read key).getD "" = (y.read key).getD ""

structure Cleared (a b : FormDevice) (key : String) : Prop where
  type : a.item.read "type" = some "disk"
  side : ¬ (key ∈ a.item.map (·.1) ↔ key ∈ b.item.map (·.1))
  empty : (a.item.read key).getD "" = "" ∧ (b.item.read key).getD "" = ""
  whole : ((a.bare.getD []).get key).getD "" ≠ ""

theorem eq_some_iff_of_getD {x y : Option String} (h : x.getD "" = y.getD "") {s : String}
    (hs : s ≠ "") :
    x = some s ↔ y = some s := by
  cases x <;> cases y <;> simp_all [eq_comm]

theorem filter_digit_getD {x y : Option String} (h : x.getD "" = y.getD "") :
    (x.filter startsWithDigit).getD "" = (y.filter startsWithDigit).getD "" := by
  have hfilter : ∀ x : Option String, (x.filter startsWithDigit).getD "" =
      if startsWithDigit (x.getD "") = true then x.getD "" else "" := by
    intro x
    cases x with
    | none => rfl
    | some s => by_cases hs : startsWithDigit s = true <;> simp [Option.filter, hs]
  rw [hfilter, hfilter, h]

variable {x y : Fields String String}

theorem SameFilled.dropSize (h : SameFilled x y) : SameFilled (dropSize x) (dropSize y) := by
  intro key
  rw [read_dropSize, read_dropSize]
  split_ifs
  · exact filter_digit_getD (h "size")
  · exact h key

theorem SameFilled.erase (h : SameFilled x y) (key : String) :
    SameFilled (x.erase key) (y.erase key) := by
  intro key'
  rw [Fields.read_erase, Fields.read_erase]
  split_ifs
  · rfl
  · exact h key'

theorem SameFilled.spread (h : SameFilled x y) (whole : Device)
    (hx : (x.map (·.1)).Nodup) (hy : (y.map (·.1)).Nodup)
    (hclear : ∀ key, ¬ (key ∈ x.map (·.1) ↔ key ∈ y.map (·.1)) → (x.read key).getD "" = "" →
      (y.read key).getD "" = "" → (whole.get key).getD "" = "") :
    SameFilled (Fields.spread (Fields.ofMap whole) x) (Fields.spread (Fields.ofMap whole) y) := by
  intro key
  rw [Fields.read_spread _ hx, Fields.read_spread _ hy, Fields.read_ofMap]
  by_cases hmemX : key ∈ x.map (·.1)
  · by_cases hmemY : key ∈ y.map (·.1)
    · rw [if_pos hmemX, if_pos hmemY]
      exact h key
    · have hempty : (x.read key).getD "" = "" := by
        rw [h key, read_of_not_mem hmemY]
        rfl
      have hside : ¬ (key ∈ x.map (·.1) ↔ key ∈ y.map (·.1)) := fun hiff => hmemY (hiff.mp hmemX)
      rw [if_pos hmemX, if_neg hmemY, hempty, hclear key hside hempty ((h key).symm.trans hempty)]
  · by_cases hmemY : key ∈ y.map (·.1)
    · have hempty : (y.read key).getD "" = "" := by
        rw [← h key, read_of_not_mem hmemX]
        rfl
      have hside : ¬ (key ∈ x.map (·.1) ↔ key ∈ y.map (·.1)) := fun hiff => hmemX (hiff.mpr hmemY)
      rw [if_neg hmemX, if_pos hmemY, hempty, hclear key hside ((h key).trans hempty) hempty]
    · rw [if_neg hmemX, if_neg hmemY]

theorem sameFilled_refl (x : Option (Fields String String)) : Option.Rel SameFilled x x := by
  cases x with
  | none => exact .none
  | some x => exact .some fun _ => rfl

theorem payload_sameFilled (ha : a.IsObject) (hb : b.IsObject) (hbare : a.bare = b.bare)
    (hitem : SameFilled a.item b.item) (hclear : ∀ key, ¬ Cleared a b key) :
    Option.Rel SameFilled (deviceToPayload a) (deviceToPayload b) := by
  have htype : ∀ t, t ≠ "" → (a.item.read "type" = some t ↔ b.item.read "type" = some t) :=
    fun t ht => eq_some_iff_of_getD (hitem "type") ht
  have hwhole : a.item.read "type" ∈ [some "unknown", some "custom-nic", some "iso-volume"] ↔
      b.item.read "type" ∈ [some "unknown", some "custom-nic", some "iso-volume"] := by
    simp only [List.mem_cons, List.not_mem_nil, or_false]
    rw [htype "unknown" (by decide), htype "custom-nic" (by decide), htype "iso-volume" (by decide)]
  have hparent : hasParent (a.item.read "parent") = hasParent (b.item.read "parent") := by
    have hany : ∀ x : Option String, hasParent x = decide (x.getD "" ≠ "") := by
      intro x
      cases x <;> simp [hasParent]
    rw [hany, hany, hitem "parent"]
  obtain ⟨nameA, itemA, bareA⟩ := a
  obtain ⟨nameB, itemB, bareB⟩ := b
  dsimp only at hbare hitem htype hwhole hparent
  rw [payload_eq, payload_eq, ← hbare, ← hparent]
  simp only [hwhole, htype "nic" (by decide)]
  by_cases hkind : itemB.read "type" ∈ [some "unknown", some "custom-nic", some "iso-volume"]
  · rw [if_pos hkind, if_pos hkind]
    exact sameFilled_refl _
  · rw [if_neg hkind, if_neg hkind]
    by_cases hnic : itemB.read "type" = some "nic"
    · rw [if_pos hnic, if_pos hnic]
      split_ifs
      · exact .some (hitem.erase "network")
      · exact .some ((hitem.erase "parent").erase "nictype")
    · rw [if_neg hnic, if_neg hnic]
      by_cases hdisk : itemA.read "type" = some "disk"
      · rw [if_pos hdisk, if_pos ((htype "disk" (by decide)).mp hdisk)]
        refine .some (SameFilled.dropSize (hitem.spread (bareA.getD []) ha.nodup hb.nodup ?_))
        intro key hside hemptyA hemptyB
        by_contra hfilled
        exact hclear key ⟨hdisk, hside, ⟨hemptyA, hemptyB⟩, hfilled⟩
      · rw [if_neg hdisk, if_neg fun h => hdisk ((htype "disk" (by decide)).mpr h)]
        exact .some hitem.dropSize

theorem isEmptyDevice_sameFilled (hname : a.name = b.name) (hitem : SameFilled a.item b.item) :
    isEmptyDevice a = isEmptyDevice b := by
  have hempty : ∀ x : Option String, x.all (· = "") = decide (x.getD "" = "") := by
    intro x
    cases x <;> simp
  have htype := eq_some_iff_of_getD (hitem "type") (by decide : "nic" ≠ "")
  unfold isEmptyDevice
  rw [hname, hempty, hempty, hitem "network"]
  simp only [htype]

/-! ### The payload of the devices -/

def payloadDevice (devices : List FormDevice) (name : String) : Option (Fields String String) :=
  ((formDeviceToPayload devices).get name).join

variable {devices : List FormDevice}

theorem nodup_payload_keys (h : (devices.map (·.name)).Nodup) :
    ((((devices.filter fun item => !isEmptyDevice item).map fun x =>
      (x.name, deviceToPayload x))).map
      (·.1)).Nodup := by
  rw [List.map_map]
  exact h.sublist (List.filter_sublist.map _)

theorem payloadDevice_of_mem (h : (devices.map (·.name)).Nodup)
    (hdevice : device ∈ devices) :
    payloadDevice devices device.name =
      if isEmptyDevice device = true then none else deviceToPayload device := by
  have hnodup := nodup_payload_keys h
  unfold payloadDevice
  rw [formDeviceToPayload_eq, OrdMap.ofList_eq_self hnodup]
  split_ifs with hempty
  · -- the name of a device that is left out is in no entry
    apply read_of_not_mem
    intro hmem
    obtain ⟨e, he, hkey⟩ := List.mem_map.mp hmem
    obtain ⟨x, hx, rfl⟩ := List.mem_map.mp he
    obtain ⟨hx, hnot⟩ := List.mem_filter.mp hx
    have hsame := List.inj_on_of_nodup_map h hx hdevice hkey
    rw [hsame, hempty] at hnot
    contradiction
  · have hmem : (device.name, deviceToPayload device) ∈
        (devices.filter fun item => !isEmptyDevice item).map fun x =>
          (x.name, deviceToPayload x) := by
      apply List.mem_map_of_mem
      exact List.mem_filter.mpr ⟨hdevice, by simpa using hempty⟩
    exact read_of_mem hnodup hmem

theorem payloadDevice_of_not_mem (h : (devices.map (·.name)).Nodup) {name : String}
    (hname : name ∉ devices.map (·.name)) : payloadDevice devices name = none := by
  unfold payloadDevice
  rw [formDeviceToPayload_eq, OrdMap.ofList_eq_self (nodup_payload_keys h)]
  apply read_of_not_mem
  rw [List.map_map]
  exact fun hmem => hname ((List.filter_sublist.map _).subset hmem)

/-! ### The other parts of the count -/

variable {formik : Formik J}

theorem fields_of_zero [DecidableEq J] (h : getPrimitiveFieldChanges formik = 0) :
    ∀ key, key ∉ ignoredFields → formik.values.fields.read key =
      formik.initialValues.fields.read key := by
  obtain ⟨hvalues, hinit⟩ := Nat.add_eq_zero_iff.mp h
  rw [List.countP_eq_zero] at hvalues hinit
  intro key hkey
  by_cases hmem : key ∈ formik.values.fields.map (·.1)
  · obtain ⟨e, he, rfl⟩ := List.mem_map.mp hmem
    rw [read_of_mem formik.values.nodup he]
    have hsame := hvalues e he
    simpa [hkey] using hsame
  · by_cases hmemInit : key ∈ formik.initialValues.fields.map (·.1)
    · obtain ⟨e, he, rfl⟩ := List.mem_map.mp hmemInit
      rw [read_of_mem formik.initialValues.nodup he]
      have hsame := hinit e he
      have hnone : formik.values.fields.any (·.1 = e.1) = false := by
        rw [List.any_eq_false]
        intro x hx hxe
        exact hmem (of_decide_eq_true hxe ▸ List.mem_map_of_mem hx)
      simpa [hkey, hnone] using hsame
    · rw [read_of_not_mem hmem, read_of_not_mem hmemInit]

theorem eq_of_countP_zip {α : Type} [DecidableEq α] {xs ys : List α}
    (hlength : xs.length = ys.length)
    (h : ((xs.zip ys).countP fun p => p.1 ≠ p.2) = 0) : xs = ys := by
  induction xs generalizing ys with
  | nil => exact (List.length_eq_zero_iff.mp hlength.symm).symm
  | cons x xs ih =>
    cases ys with
    | nil => simp at hlength
    | cons y ys =>
      rw [List.zip_cons_cons, List.countP_cons] at h
      obtain ⟨htail, hhead⟩ := Nat.add_eq_zero_iff.mp h
      have hxy : x = y := by
        by_contra hne
        simp [hne] at hhead
      rw [hxy, ih (Nat.succ.inj hlength) htail]

theorem profiles_of_zero (h : getProfileChanges formik = 0) :
    formik.values.profiles = formik.initialValues.profiles := by
  have hform := formik.sameForm
  unfold getProfileChanges at h
  cases hinit : formik.initialValues.profiles with
  | none =>
    rw [hinit] at hform
    exact not_isSome_iff_eq_none.mp (by rw [hform]; decide)
  | some initProfiles =>
    rw [hinit] at hform h
    obtain ⟨profiles, hprofiles⟩ := isSome_iff_exists.mp hform
    rw [hprofiles] at h ⊢
    obtain ⟨hlength, hzip⟩ := Nat.add_eq_zero_iff.mp h
    have hsame : initProfiles.length = profiles.length := by omega
    rw [eq_of_countP_zip hsame hzip]

theorem mem_stringifyWithOrder (value : Fields String J) {l : List (String × J)}
    (hl : stringifyWithOrder (some value) = some l) {v : J} :
    (key, v) ∈ l ↔ value.read key = some v := by
  obtain rfl := some.inj hl
  rw [List.mem_filterMap]
  constructor
  · rintro ⟨key', -, hkey⟩
    obtain ⟨v', hv', hpair⟩ := map_eq_some_iff.mp hkey
    obtain ⟨rfl, rfl⟩ := Prod.mk.inj hpair
    exact hv'
  · intro hv
    refine ⟨key, ?_, by rw [hv]; rfl⟩
    rw [List.mem_mergeSort]
    by_contra hmem
    rw [read_of_not_mem hmem] at hv
    contradiction

def SameLimit : Option (Fields String J) → Option (Fields String J) → Prop :=
  Option.Rel fun x y => ∀ key, x.read key = y.read key

theorem sameLimit_of_stringify {x y : Option (Fields String J)}
    (h : stringifyWithOrder x = stringifyWithOrder y) :
    SameLimit y x := by
  cases x with
  | none =>
    cases y with
    | none => exact .none
    | some y => cases h
  | some x =>
    cases y with
    | none => cases h
    | some y =>
      refine .some fun key => ?_
      have hread : ∀ v, y.read key = some v ↔ x.read key = some v := by
        intro v
        rw [← mem_stringifyWithOrder y rfl, ← mem_stringifyWithOrder x h]
      exact Option.ext hread

theorem limits_of_zero [DecidableEq J] (h : getLimitChanges formik = 0) :
    ∀ key ∈ ["limits_cpu", "limits_memory"],
      SameLimit (formik.values.limits.read key) (formik.initialValues.limits.read key) := by
  unfold getLimitChanges at h
  rw [List.countP_eq_zero] at h
  intro key hkey
  have hsame := h key hkey
  split_ifs at hsame with hmem
  · exact sameLimit_of_stringify (by simpa using hsame)
  · have hnot : key ∉ formik.values.limits.map (·.1) := by
      intro hin
      obtain ⟨e, he, hname⟩ := List.mem_map.mp hin
      exact hmem (List.any_eq_true.mpr ⟨e, he, decide_eq_true hname⟩)
    rw [read_of_not_mem hnot, not_isSome_iff_eq_none.mp hsame]
    exact .none

theorem userProperties_of_zero
    (h : getUserPropertiesChanges formik = 0) (name : String) :
    get formik.values.userProperties name = get formik.initialValues.userProperties name := by
  obtain ⟨hinit, hadded⟩ := Nat.add_eq_zero_iff.mp h
  obtain ⟨hremoved, hchanged⟩ := Nat.add_eq_zero_iff.mp hinit
  rw [List.countP_eq_zero] at hremoved hchanged hadded
  cases hget : get formik.initialValues.userProperties name with
  | none =>
    by_contra hsome
    have hmem := (isSome_get _ name).mp (isSome_iff_ne_none.mpr hsome)
    have hold : name ∈ formik.initialValues.userProperties.map (·.1) := by
      simpa using hadded name hmem
    have hfound := (isSome_get _ name).mpr hold
    rw [hget] at hfound
    contradiction
  | some v =>
    have hmem := OrdMap.mem_of_get hget
    have hthere : name ∈ formik.values.userProperties.map (·.1) := by
      have hkept := hremoved _ hmem
      rw [Bool.not_eq_true, Bool.not_eq_false', List.contains_iff_mem] at hkept
      exact hkept
    obtain ⟨v', hv'⟩ := isSome_iff_exists.mp ((isSome_get _ name).mpr hthere)
    have hsame := hchanged _ hmem
    rw [hv'] at hsame ⊢
    simpa using hsame

/-! ### The devices -/

structure DistinctNames (values : FormValues J) : Prop where
  devices : (values.devices.map (·.name)).Nodup
  userProperties : (values.userProperties.map (·.1)).Nodup

def TakenForRoot (initDevices devices : List FormDevice) (device : FormDevice) : Prop :=
  device.name ∉ initDevices.map (·.name) ∧
    ∃ old, (removedDevices initDevices devices).find? (·.item.read "type" =
      device.item.read "type") = some old ∧
      isRootDisk old = true ∧ ∀ key ∈ ["size", "pool"],
        (old.item.read key).getD "" = (device.item.read key).getD ""

theorem find_name (h : (devices.map (·.name)).Nodup)
    (hdevice : device ∈ devices) : devices.find? (·.name = device.name) = some device := by
  have hsome : (devices.find? (·.name = device.name)).isSome = true := by
    rw [List.find?_isSome]
    exact ⟨device, hdevice, decide_eq_true rfl⟩
  obtain ⟨x, hx⟩ := isSome_iff_exists.mp hsome
  have hname : x.name = device.name := by simpa using List.find?_some hx
  rw [hx, List.inj_on_of_nodup_map h (List.mem_of_find?_eq_some hx) hdevice hname]

theorem mem_removedDevices {initDevices devices : List FormDevice} {init : FormDevice} :
    init ∈ removedDevices initDevices devices ↔ init ∈ initDevices ∧
      init.name ∉ devices.map (·.name) := by
  unfold removedDevices
  rw [List.mem_filter]
  simp

section Devices

variable {initDevices devices : List FormDevice}

theorem newDeviceChanges_nonneg (hnodup : (devices.map (·.name)).Nodup)
    (hdevice : device ∈ devices) (hnew : device.name ∉ initDevices.map (·.name))
    (hroot : ¬ TakenForRoot initDevices devices device) :
    0 ≤ newDeviceChanges initDevices devices device.name := by
  unfold newDeviceChanges
  rw [find_name hnodup hdevice]
  cases hold : (removedDevices initDevices devices).find? (·.item.read "type" =
    device.item.read "type") with
  | none =>
    simp only [hold]
    decide
  | some old =>
    have hremoved := mem_removedDevices.mp (List.mem_of_find?_eq_some hold)
    have hpos : 0 < getDevicePairFieldChanges old device := by
      cases hdisk : isRootDisk old with
      | false =>
        apply pair_pos_of_name hdisk
        intro hname
        exact hnew (hname ▸ List.mem_map_of_mem hremoved.1)
      | true =>
        apply Nat.pos_of_ne_zero
        intro hzero
        exact hroot ⟨hnew, old, hold, hdisk, (pair_zero_of_root hdisk).mp hzero⟩
    simp only [hold]
    omega

theorem newDeviceChanges_of_none (h : removedDevices initDevices devices = []) (name : String) :
    newDeviceChanges initDevices devices name = 1 := by
  unfold newDeviceChanges
  rw [h]
  split
  · rfl
  · rfl

theorem sum_nonneg_of_forall {l : List ℤ} (h : ∀ x ∈ l, 0 ≤ x) : 0 ≤ l.sum ∧
    (l.sum = 0 → ∀ x ∈ l, x = 0) := by
  induction l with
  | nil => simp
  | cons x l ih =>
    obtain ⟨hsum, hzero⟩ := ih fun y hy => h y (List.mem_cons_of_mem x hy)
    have hx := h x List.mem_cons_self
    rw [List.sum_cons]
    refine ⟨by omega, fun htotal y hy => ?_⟩
    rcases List.mem_cons.mp hy with rfl | hy
    · omega
    · exact hzero (by omega) y hy

end Devices

/-- What the count compares of the devices is not negative, and 0 only where the same devices do not
differ in it. -/
theorem deviceChanges_spec (hvalues : (formik.values.devices.map (·.name)).Nodup)
    (hroot : ∀ device ∈ formik.values.devices,
      ¬ TakenForRoot formik.initialValues.devices formik.values.devices device) :
    0 ≤ getDeviceChanges formik ∧ (getDeviceChanges formik = 0 →
      (∀ name, name ∈ formik.values.devices.map (·.name) ↔
        name ∈ formik.initialValues.devices.map (·.name)) ∧
        ∀ device ∈ formik.values.devices, ∀ init ∈ formik.initialValues.devices,
          init.name = device.name →
          getDevicePairFieldChanges device init = 0) := by
  let initDevices := formik.initialValues.devices
  let devices := formik.values.devices
  let newNames := (devices.map (·.name)).filter fun name =>
    !(initDevices.map (·.name)).contains name
  have hmemNew : ∀ name, name ∈ newNames ↔
      name ∈ devices.map (·.name) ∧ name ∉ initDevices.map (·.name) := by
    intro name
    simp [newNames, List.mem_filter]
  have hnew : ∀ x ∈ newNames.map (newDeviceChanges initDevices devices), 0 ≤ x := by
    intro x hx
    obtain ⟨name, hname, rfl⟩ := List.mem_map.mp hx
    obtain ⟨hthere, hnot⟩ := (hmemNew name).mp hname
    obtain ⟨device, hdevice, rfl⟩ := List.mem_map.mp hthere
    exact newDeviceChanges_nonneg hvalues hdevice hnot (hroot device hdevice)
  have hcount : getDeviceChanges formik = (removedDevices initDevices devices).length +
      (initDevices.map (keptDeviceChanges devices)).sum +
      (newNames.map (newDeviceChanges initDevices devices)).sum := rfl
  obtain ⟨hsum, hzero⟩ := sum_nonneg_of_forall hnew
  rw [hcount]
  refine ⟨by omega, fun htotal => ?_⟩
  have hremoved : removedDevices initDevices devices = [] := List.length_eq_zero_iff.mp (by omega)
  have hnoNew : newNames = [] := by
    rw [List.eq_nil_iff_forall_not_mem]
    intro name hname
    have hone := hzero (by omega) _ (List.mem_map_of_mem hname)
    rw [newDeviceChanges_of_none hremoved] at hone
    contradiction
  have hkept : ∀ init ∈ initDevices, keptDeviceChanges devices init = 0 := by
    have hsumKept : (initDevices.map (keptDeviceChanges devices)).sum = 0 := by omega
    intro init hinit
    exact List.sum_eq_zero_iff_forall_eq_nat.mp hsumKept _ (List.mem_map_of_mem hinit)
  refine ⟨fun name => ⟨fun hname => ?_, fun hname => ?_⟩, fun device hdevice init hinit hname => ?_⟩
  · by_contra hnot
    have hmem := (hmemNew name).mpr ⟨hname, hnot⟩
    rw [hnoNew] at hmem
    exact absurd hmem List.not_mem_nil
  · obtain ⟨init, hinit, rfl⟩ := List.mem_map.mp hname
    by_contra hnot
    have hmem := mem_removedDevices.mpr ⟨hinit, hnot⟩
    rw [hremoved] at hmem
    exact absurd hmem List.not_mem_nil
  · have hzeroKept := hkept init hinit
    unfold keptDeviceChanges at hzeroKept
    rw [hname, find_name hvalues hdevice] at hzeroKept
    exact hzeroKept

/-! ### Forms without changes -/

structure SameFields (formik : Formik J) : Prop where
  profiles : formik.values.profiles = formik.initialValues.profiles
  limits : ∀ key ∈ ["limits_cpu", "limits_memory"],
    SameLimit (formik.values.limits.read key) (formik.initialValues.limits.read key)
  userProperties : ∀ name,
    get formik.values.userProperties name = get formik.initialValues.userProperties name
  fields : ∀ key, key ∉ ignoredFields → formik.values.fields.read key =
    formik.initialValues.fields.read key

structure Unchanged (formik : Formik J) : Prop extends SameFields formik where
  devices : ∀ name, Option.Rel (fun x y => ∀ key, x.read key = y.read key)
    (payloadDevice formik.values.devices name) (payloadDevice formik.initialValues.devices name)

/-- The form has no changes but such that the count does not look at: an empty text is the same as
none, and of a root disk only the size and the pool are compared. -/
structure UnchangedShown (formik : Formik J) : Prop extends SameFields formik where
  devices : ∀ name,
    (∀ device ∈ formik.values.devices, device.name = name → isRootDisk device = false) →
    Option.Rel SameFilled (payloadDevice formik.values.devices name)
      (payloadDevice formik.initialValues.devices name)
  rootDisks : ∀ device ∈ formik.values.devices, isRootDisk device = true →
    ∃ init ∈ formik.initialValues.devices, init.name = device.name ∧
      ∀ key ∈ ["size", "pool"], (device.item.read key).getD "" = (init.item.read key).getD ""

/-- No new device is taken for a removed root disk of its size and pool, and no disk has a key
cleared that only the device it keeps whole had. -/
structure Countable (formik : Formik J) : Prop where
  renames : ∀ device ∈ formik.values.devices,
    ¬ TakenForRoot formik.initialValues.devices formik.values.devices device
  cleared : ∀ device ∈ formik.values.devices, ∀ init ∈ formik.initialValues.devices,
    init.name = device.name →
    ∀ key, ¬ Cleared device init key

theorem devices_of_zero (hinit : DistinctNames formik.initialValues)
    (hvalues : DistinctNames formik.values) (hcountable : Countable formik)
    (h : getDeviceChanges formik = 0)
    (name : String)
    (hname : ∀ device ∈ formik.values.devices, device.name = name → isRootDisk device = false) :
    Option.Rel SameFilled (payloadDevice formik.values.devices name)
      (payloadDevice formik.initialValues.devices name) := by
  obtain ⟨hnames, hpairs⟩ := (deviceChanges_spec hvalues.devices hcountable.renames).2 h
  by_cases hmem : name ∈ formik.values.devices.map (·.name)
  · obtain ⟨device, hdevice, rfl⟩ := List.mem_map.mp hmem
    obtain ⟨init, hinitDevice, hsame⟩ := List.mem_map.mp ((hnames device.name).mp hmem)
    have hobject := formik.values.objects device hdevice
    have hobjectInit := formik.initialValues.objects init hinitDevice
    obtain ⟨hbare, hitem⟩ := pair_zero_of_not_root (hname device hdevice rfl) hobject hobjectInit
      (hpairs device hdevice init hinitDevice hsame)
    have hpayload := payloadDevice_of_mem hinit.devices hinitDevice
    rw [hsame] at hpayload
    rw [payloadDevice_of_mem hvalues.devices hdevice, hpayload,
      isEmptyDevice_sameFilled hsame.symm hitem]
    split_ifs
    · exact .none
    · exact payload_sameFilled hobject hobjectInit hbare hitem
        (hcountable.cleared device hdevice init hinitDevice hsame)
  · rw [payloadDevice_of_not_mem hvalues.devices hmem,
      payloadDevice_of_not_mem hinit.devices (fun hin => hmem ((hnames name).mpr hin))]
    exact .none

theorem rootDisks_of_zero (hvalues : DistinctNames formik.values) (hcountable : Countable formik)
    (h : getDeviceChanges formik = 0) (hdevice : device ∈ formik.values.devices)
    (hroot : isRootDisk device = true) : ∃ init ∈ formik.initialValues.devices,
      init.name = device.name ∧
      ∀ key ∈ ["size", "pool"], (device.item.read key).getD "" = (init.item.read key).getD "" := by
  obtain ⟨hnames, hpairs⟩ := (deviceChanges_spec hvalues.devices hcountable.renames).2 h
  obtain ⟨init, hinit, hsame⟩ :=
    List.mem_map.mp ((hnames device.name).mp (List.mem_map_of_mem hdevice))
  exact ⟨init, hinit, hsame, (pair_zero_of_root hroot).mp (hpairs device hdevice init hinit hsame)⟩

/-- The count is not negative, and is 0 only where nothing differs that it looks at. -/
theorem count_spec [DecidableEq J] (formik : Formik J) (hinit : DistinctNames formik.initialValues)
    (hvalues : DistinctNames formik.values) (hcountable : Countable formik) :
    0 ≤ getFormChangeCount formik ∧ (getFormChangeCount formik = 0 → UnchangedShown formik) := by
  obtain ⟨hdevices, -⟩ := deviceChanges_spec hvalues.devices hcountable.renames
  unfold getFormChangeCount
  refine ⟨by omega, fun hcount => ?_⟩
  have hzero : getDeviceChanges formik = 0 := by omega
  exact
    { profiles := profiles_of_zero (by omega)
      limits := limits_of_zero (by omega)
      userProperties := userProperties_of_zero (by omega)
      fields := fields_of_zero (by omega)
      devices := devices_of_zero hinit hvalues hcountable hzero
      rootDisks := fun device hdevice hroot =>
        rootDisks_of_zero hvalues hcountable hzero hdevice hroot }

/-! ### Some forms -/

instance decidableIsObject (device : FormDevice) : Decidable device.IsObject :=
  decidable_of_iff ((device.item.map (·.1)).Nodup ∧ ∀ key ∈ ["name", "bare"],
    key ∉ device.item.map (·.1))
    ⟨fun h => ⟨h.1, h.2⟩, fun h => ⟨h.nodup, h.others⟩⟩

def nicDevice (name : String) (network : List String) : FormDevice :=
  ⟨name, ("type", some "nic") :: network.map fun s => ("network", some s), none⟩

def rootDevice (bootPriority : List String) : FormDevice :=
  ⟨"root", [("type", some "disk"), ("path", some "/"), ("pool", some "default")] ++
    bootPriority.map fun s => ("boot.priority", some s), none⟩

def deviceForm (devices : List FormDevice) (objects : ∀ device ∈ devices, device.IsObject) :
    FormValues String where
  fields := [("name", some "web"), ("readOnly", some "true")]
  nodup := by decide
  limits := []
  profiles := some ["default"]
  devices := devices
  objects := objects
  userProperties := [("user.owner", "ops")]

def renamedNic : Formik String where
  initialValues := deviceForm [nicDevice "eth0" ["lan"], rootDevice []] (by decide)
  values := deviceForm [nicDevice "eth1" ["lan"], rootDevice []] (by decide)
  sameForm := rfl

theorem count_spec_renamedNic :
    0 ≤ getFormChangeCount renamedNic ∧
      (getFormChangeCount renamedNic = 0 → UnchangedShown renamedNic) := by
  refine count_spec renamedNic ⟨by decide, by decide⟩ ⟨by decide, by decide⟩ ⟨?_, ?_⟩
  · rintro device - ⟨-, old, hold, hroot, -⟩
    -- what was removed is a NIC
    have hnic := mem_removedDevices.mp (List.mem_of_find?_eq_some hold)
    have hall : ∀ init ∈ renamedNic.initialValues.devices, isRootDisk init = true →
        init.name ∈ renamedNic.values.devices.map (·.name) := by
      decide
    exact hnic.2 (hall old hnic.1 hroot)
  · intro device hdevice init hinit hname key hcleared
    have hkeys : ∀ device ∈ renamedNic.values.devices, ∀ init ∈ renamedNic.initialValues.devices,
        init.name = device.name → init.item.map (·.1) = device.item.map (·.1) := by
      decide
    exact hcleared.side (by rw [hkeys device hdevice init hinit hname])

def bootPriorityRemoved : Formik String where
  initialValues := deviceForm [rootDevice ["10"]] (by decide)
  values := deviceForm [rootDevice []] (by decide)
  sameForm := rfl

def networkCleared : Formik String where
  initialValues := deviceForm [nicDevice "eth0" []] (by decide)
  values := deviceForm [nicDevice "eth0" [""]] (by decide)
  sameForm := rfl

theorem Unchanged.read_eq (h : Unchanged formik) (name : String)
    (hx : payloadDevice formik.values.devices name = some x)
    (hy : payloadDevice formik.initialValues.devices name = some y) (key : String) :
      x.read key = y.read key := by
  have hrel := h.devices name
  rw [hx, hy] at hrel
  cases hrel with
  | some hread => exact hread key

/-- The count does not see either. -/
theorem unseen_differences :
    ¬ (DistinctNames bootPriorityRemoved.initialValues → DistinctNames bootPriorityRemoved.values →
      0 ≤ getFormChangeCount bootPriorityRemoved ∧
        (getFormChangeCount bootPriorityRemoved = 0 → Unchanged bootPriorityRemoved)) ∧
    ¬ (DistinctNames networkCleared.initialValues → DistinctNames networkCleared.values →
      0 ≤ getFormChangeCount networkCleared ∧
        (getFormChangeCount networkCleared = 0 → Unchanged networkCleared)) := by
  constructor
  · intro h
    obtain ⟨-, hunchanged⟩ := h ⟨by decide, by decide⟩ ⟨by decide, by decide⟩
    have hread := (hunchanged (by decide)).read_eq "root" rfl rfl "boot.priority"
    exact absurd hread (by decide)
  · intro h
    obtain ⟨-, hunchanged⟩ := h ⟨by decide, by decide⟩ ⟨by decide, by decide⟩
    have hread := (hunchanged (by decide)).read_eq "eth0" rfl rfl "network"
    exact absurd hread (by decide)

end IncusCloud.Forms
