import IncusCloud.Firecloud.Proofs.CephDisks

/-!
# The shared pool, and all of the disk questions

Clustered LVM is only asked for where Ceph gets no disk, and gets a disk that the local pool cannot
have (`wp_askSharedPool`). `askDisks_spec` says what a configuration has in the end, by what the
operator chose.
-/

namespace IncusCloud.Firecloud

open Lib Handler List
open Handler (wp locals assign when)
open Function (update update_of_ne)

variable {site : Site} {l : Asking} {w : Asked} {state : OrdMap String SystemInformation} {m path : String}
  {disk : Disk} {row : Row} {rows : List Row} {selected : OrdMap String String} {luns : List Disk}
  {names asks : List String} {c : InitConfig}

/-! ### What is planned in the end -/

structure Planned (site : Site) (selected : OrdMap String String) (w : Asked)
    (e : String × InitSystem) : Prop where
  localDisks : e.2.localDisks = plannedDisk site selected e.1
  paths : e.2.microCephDisks.map (·.path) =
    ((w.chosen .remotePool).filter fun row => row.location = e.1).map (·.path)
  wipes : ∀ d ∈ e.2.microCephDisks, d.wipe = true ↔ Row.at? (w.wiped .remotePool) e.1 d.path
  lvm : e.2.lvmDisks = [] ∨
    ∃ path, e.2.lvmDisks = [path] ∧ e.2.microCephDisks = [] ∧ selected.get e.1 ≠ some path

structure DisksDone (site : Site) (state : OrdMap String SystemInformation) (names : List String)
    (selected : OrdMap String String) (asks : List String) (c : InitConfig) (w : Asked) : Prop where
  rows : LocalRows state (w.chosen .localPool)
  chosen : ∀ m path, selected.get m = some path ↔ Row.at? (w.chosen .localPool) m path
  ceph : CephRows state selected asks (w.chosen .remotePool)
  keys : ∀ m ∈ names, m ∈ c.systems.map (·.1)
  systems : ∀ e ∈ c.systems, e.1 ∈ names → Planned site selected w e
  others : ∀ e ∈ c.systems, e.1 ∉ names →
    e.2.localDisks = [] ∧ e.2.microCephDisks = [] ∧ e.2.lvmDisks = []

theorem CephPlanned.planned {e : String × InitSystem} (h : CephPlanned site selected w e) :
    Planned site selected w e :=
  ⟨h.localDisks, h.paths, h.wipes, .inl h.lvm⟩

theorem LocalSettled.disksDone (h : LocalSettled state luns names selected c w) {c' : InitConfig}
    (hsame : c'.systems.map (·.1) = c.systems.map (·.1))
    (hceph : CephRows state selected asks (w.chosen .remotePool))
    (hsystems : ∀ e ∈ c'.systems, Planned site selected w e) :
      DisksDone site state names selected asks c' w := by
  refine ⟨h.rows, h.chosen, hceph, fun m hm => ?_, fun e he _ => hsystems e he, fun e he hm => absurd ?_ hm⟩
  · rw [hsame, h.names]
    exact hm
  · rw [← h.names, ← hsame]
    exact mem_map_of_mem he

theorem CephDone.disksDone (h : CephDone site state luns names selected asks c w) :
    DisksDone site state names selected asks c w :=
  h.toLocalSettled.disksDone rfl h.ceph fun e he => (h.systems e he).planned

/-! ### Joining the cluster's shared pool -/

theorem name_sharedPoolJoinConfig (config : OrdMap String String) :
    ∀ k ∈ sharedPoolJoinConfig config, k.name ≠ defaultZFSPool := by
  intro k hk
  obtain ⟨key, -, hsome⟩ := List.mem_filterMap.mp hk
  dsimp only at hsome
  split_ifs at hsome
  rw [← Option.some.inj hsome]
  show defaultCephPool ≠ defaultZFSPool
  decide

theorem Planned.join {e : String × InitSystem} (h : Planned site selected w e)
    (config : OrdMap String String) :
    Planned site selected w (e.1,
      { e.2 with joinConfig := e.2.joinConfig ++ sharedPoolJoinConfig config }) := by
  refine ⟨?_, h.paths, h.wipes, h.lvm⟩
  rw [← h.localDisks]
  exact localDisks_joined (name_sharedPoolJoinConfig config) rfl rfl

theorem DisksDone.join (h : DisksDone site state names selected asks c w)
    (config : OrdMap String String) (name : String) :
    DisksDone site state names selected asks { c with systems := joinsShared config c.systems name } w := by
  have hkeys : ∀ m, m ∈ c.systems.map (·.1) → m ∈ (joinsShared config c.systems name).map (·.1) := by
    intro m hm
    rw [← OrdMap.isSome_get] at hm ⊢
    unfold joinsShared
    rw [OrdMap.get_set]
    split_ifs
    · rfl
    · exact hm
  refine ⟨h.rows, h.chosen, h.ceph, fun m hm => hkeys m (h.keys m hm), fun e he hm => ?_, fun e he hm => ?_⟩
  · rcases OrdMap.mem_set he with rfl | he
    · obtain ⟨system, hsystem⟩ := Option.isSome_iff_exists.mp ((OrdMap.isSome_get _ _).mpr (h.keys _ hm))
      rw [hsystem]
      exact (h.systems _ (OrdMap.mem_of_get hsystem) hm).join config
    · exact h.systems e he hm
  · rcases OrdMap.mem_set he with rfl | he
    · have hnone : ((c.systems.get name).getD .empty).localDisks = [] ∧
          ((c.systems.get name).getD .empty).microCephDisks = [] ∧
          ((c.systems.get name).getD .empty).lvmDisks = [] := by
        cases hsystem : c.systems.get name with
        | none => exact ⟨rfl, rfl, rfl⟩
        | some system => exact h.others _ (OrdMap.mem_of_get hsystem) hm
      refine ⟨?_, hnone.2⟩
      rw [← hnone.1]
      exact localDisks_joined (name_sharedPoolJoinConfig config) rfl rfl
    · exact h.others e he hm

theorem DisksDone.joinAll (h : DisksDone site state names selected asks c w) (config : OrdMap String String)
    (joining : List String) : DisksDone site state names selected asks
      { c with systems := joining.foldl (joinsShared config) c.systems } w := by
  induction joining generalizing c with
  | nil => exact h
  | cons name joining ih => exact ih (h.join config name)

section

variable {Q : Option (OrdMap String String) → Asking → Asked → Prop} {E : WizardError → Asking → Asked → Prop}

theorem wp_firstMemberConfig (hQ : ∀ config, Q config l w) (hE : ∀ e, E e l w) (pool : String)
    (members : List String) :
    wp (operator site) (fun _ => True) Q E (firstMemberConfig pool members) l w := by
  induction members with
  | nil => exact hQ none
  | cons name members ih =>
    unfold firstMemberConfig
    rw [wp_bind]
    refine wp_plain (c := .memberPool _ _) (fun _ _ => rfl) (fun config => ?_) hE
    split_ifs
    · exact hQ config
    · exact ih

end

theorem wp_joinSharedPool (hdone : DisksDone site state names selected asks l.config w) (pool : StoragePool) :
    wp (operator site) (fun _ => True) (fun _ l w => DisksDone site state names selected asks l.config w)
      (fun _ _ _ => True) (joinSharedPool pool) l w := by
  unfold joinSharedPool
  rw [wp_bind]
  refine wp_plain (c := .connect) (fun _ _ => rfl) (fun _ => ?_) fun _ => trivial
  rw [wp_bind, wp_locals, wp_bind]
  refine wp_firstMemberConfig (fun config => ?_) (fun _ => trivial) _ _
  cases config with
  | none => exact trivial
  | some config =>
    have hjoined := hdone.joinAll config
      ((l.config.state.filter fun e => e.2.existingRemotePool.isNone).map (·.1))
    exact ⟨hjoined.rows, hjoined.chosen, hjoined.ceph, hjoined.keys, hjoined.systems, hjoined.others⟩

/-! ### A TrueNAS pool -/

theorem wp_askTrueNASPool (hdone : CephDone site state luns names selected asks l.config w) :
    wp (operator site) (fun _ => True) (fun _ l w => DisksDone site state names selected asks l.config w)
      (fun _ _ _ => True) (askTrueNASPool site) l w := by
  unfold askTrueNASPool
  rw [wp_bind]
  refine wp_plain (c := .askString _) (fun _ _ => rfl) (fun host => ?_) fun _ => trivial
  rw [wp_bind]
  refine wp_plain (c := .askString _) (fun _ _ => rfl) (fun apiKey => ?_) fun _ => trivial
  rw [wp_bind]
  refine wp_plain (c := .askString _) (fun _ _ => rfl) (fun dataset => ?_) fun _ => trivial
  rw [wp_bind]
  refine wp_plain (c := .askBool _) (fun _ _ => rfl) (fun insecure => ?_) fun _ => trivial
  refine hdone.toLocalSettled.disksDone ?_ hdone.ceph fun e he => ?_
  · show (l.config.systems.map _).map _ = _
    rw [map_map]
    rfl
  · obtain ⟨e₀, he₀, rfl⟩ := List.mem_map.mp he
    have hplanned := hdone.systems e₀ he₀
    refine ⟨?_, hplanned.paths, hplanned.wipes, .inl ?_⟩
    · rw [← hplanned.localDisks]
      refine localDisks_targeted (fun pool hpool => ?_) rfl rfl
      rw [mem_singleton.mp hpool]
      show defaultCephPool ≠ defaultZFSPool
      decide
    · rw [← hplanned.lvm]
      refine lvmDisks_append (fun pool hpool => ?_) rfl
      rw [mem_singleton.mp hpool]
      show "truenas" ≠ "lvmcluster"
      decide

/-! ### Clustered LVM -/

theorem mem_sharedDisks {lun : Disk} (h : lun ∈ sharedDisks state) :
    canBeShared lun = true ∧ ∃ e ∈ state, ∃ d ∈ e.2.availableDisks, d.2 = lun := by
  have hsorted := (perm_insertionSort (fun a b => formatDiskPath a ≤ formatDiskPath b) _).mem_iff.mp h
  obtain ⟨path, -, hfound⟩ := List.mem_filterMap.mp hsorted
  have hmem := mem_of_find?_eq_some hfound
  obtain ⟨e, he, hdisk⟩ := mem_flatMap.mp hmem
  obtain ⟨hdisk, hshared⟩ := mem_filter.mp hdisk
  obtain ⟨d, hd, rfl⟩ := List.mem_map.mp hdisk
  exact ⟨hshared, e, he, d, hd, rfl⟩

/-- Where there is one system, or none of the shared disks is offered to a pool. -/
def Apart (state : OrdMap String SystemInformation) (luns : List Disk) : Prop :=
  state.length = 1 ∨ ∀ m disk, IsDisk state m disk → ∀ lun ∈ luns, formatDiskPath disk ≠ formatDiskPath lun

theorem LocalSettled.lvm (h : LocalSettled state luns names selected c w)
    (hapart : Apart state luns) {lun : Disk}
    (hlun : lun ∈ c.shared) (m : String) : selected.get m ≠ some (formatDiskPath lun) := by
  intro hsame
  obtain ⟨row, hrow, rfl, hpath⟩ := (h.chosen m _).mp hsame
  have hlength : c.state.length = state.length := by
    have hkeys := congrArg List.length h.keys
    rwa [length_map, length_map] at hkeys
  by_cases htype : row.type = diskTypeLoop
  · have hloop := h.rows.loop row hrow htype
    rw [hpath, localLoopSize_formatDiskPath] at hloop
    cases hloop
  · obtain ⟨disk, hdisk, hrowPath⟩ := h.rows.device row hrow htype
    unfold InitConfig.shared at hlun
    by_cases hone : c.state.length = 1
    · rw [if_pos hone] at hlun
      obtain ⟨hshared, e, he, d, hd, rfl⟩ := mem_sharedDisks hlun
      -- There is one system, so that the disk is one of those that the local pool left on it.
      have hm : e.1 = row.location := by
        obtain ⟨e₀, he₀, hm, -⟩ := hdisk
        obtain ⟨x, hx⟩ := length_eq_one_iff.mp (hlength.symm.trans hone)
        have hkeys := h.keys
        rw [hx] at he₀ hkeys
        have hmem : e.1 ∈ c.state.map (·.1) := mem_map_of_mem he
        rw [hkeys] at hmem
        rw [← hm, mem_singleton.mp he₀]
        exact mem_singleton.mp hmem
      rcases h.left e he d hd with hloop | ⟨-, -, hother⟩
      · obtain ⟨n, hloop | hloop⟩ := hloop
        · rw [hloop] at hshared
          cases hshared
        · rw [hloop] at hshared
          cases hshared
      · rw [hm] at hother
        exact hother hsame
    · rw [if_neg hone, h.luns] at hlun
      rcases hapart with hone' | hapart
      · exact hone (hlength.trans hone')
      · exact hapart _ disk hdisk lun hlun (hrowPath.symm.trans hpath)

theorem CephDone.selectShared (h : CephDone site state luns names selected asks c w)
    (rows : List Row) : CephDone site state luns names selected asks c
      { w with chosen := update w.chosen .sharedPool rows } := by
  have hlocal : update w.chosen .sharedPool rows .localPool = w.chosen .localPool :=
    update_of_ne (by decide) _ _
  have hremote : update w.chosen .sharedPool rows .remotePool = w.chosen .remotePool :=
    update_of_ne (by decide) _ _
  refine ⟨h.toLocalSettled.of_chosen hlocal, ?_, fun e he => ?_, h.planned⟩
  · show CephRows state selected asks (update w.chosen .sharedPool rows .remotePool)
    rw [hremote]
    exact h.ceph
  · obtain ⟨hdisks, hlvm, hpaths, hwipes⟩ := h.systems e he
    refine ⟨hdisks, hlvm, ?_, hwipes⟩
    show _ = ((update w.chosen .sharedPool rows .remotePool).filter _).map _
    rw [hremote]
    exact hpaths

theorem CephDone.withLVM (h : CephDone site state luns names selected asks c w)
    (hnone : ∀ e ∈ c.systems, e.2.microCephDisks = []) (name : String)
    (hother : ∀ m, selected.get m ≠ some path) :
    DisksDone site state names selected asks (c.withLVM name path) w := by
  refine h.toLocalSettled.disksDone ?_ h.ceph fun e he => ?_
  · show (c.systems.map _).map _ = _
    rw [map_map]
    rfl
  · obtain ⟨e₀, he₀, rfl⟩ := List.mem_map.mp he
    have hplanned := h.systems e₀ he₀
    refine ⟨?_, hplanned.paths, hplanned.wipes, .inr ⟨path, ?_, hnone e₀ he₀, hother e₀.1⟩⟩
    · rw [← hplanned.localDisks]
      refine localDisks_targeted (fun pool hpool => ?_) rfl rfl
      rw [mem_singleton.mp hpool]
      show defaultCephPool ≠ defaultZFSPool
      decide
    · show ((e₀.2.targetStoragePools ++ [defaultPendingLVMClusterStoragePool path defaultLVMClusterVG]).filter
        fun pool => pool.driver = "lvmcluster").filterMap (fun pool => pool.config.get "source") = [path]
      rw [filter_append, filterMap_append]
      have hold : (e₀.2.targetStoragePools.filter fun pool => pool.driver = "lvmcluster").filterMap
          (fun pool => pool.config.get "source") = [] := hplanned.lvm
      rw [hold]
      rfl

theorem wp_selectShared {c₀ : InitConfig}
    (h : CephDone site state luns names selected asks l.config w ∧ l.config = c₀ ∧
      (l.lvmPath = "" ∨ ∃ lun ∈ c₀.shared, l.lvmPath = formatDiskPath lun)) :
    wp (operator site) (fun _ => True)
      (fun _ l w => CephDone site state luns names selected asks l.config w ∧ l.config = c₀ ∧
        (l.lvmPath = "" ∨ ∃ lun ∈ c₀.shared, l.lvmPath = formatDiskPath lun))
      (fun _ l w => CephDone site state luns names selected asks l.config w ∧ l.config = c₀ ∧
        (l.lvmPath = "" ∨ ∃ lun ∈ c₀.shared, l.lvmPath = formatDiskPath lun))
      (selectShared (c₀.shared.map fun disk => ⟨"", disk.type, formatDiskPath disk⟩)) l w := by
  unfold selectShared
  rw [wp_bind]
  refine wp_select (fun picks => ?_) fun e => ⟨h.1.selectShared [], h.2⟩
  have hpicked : ∀ row ∈ pickRows (c₀.shared.map fun disk => ⟨"", disk.type, formatDiskPath disk⟩) picks,
      ∃ lun ∈ c₀.shared, row.path = formatDiskPath lun := by
    intro row hrow
    obtain ⟨lun, hlun, rfl⟩ := List.mem_map.mp (mem_pickRows hrow)
    exact ⟨lun, hlun, rfl⟩
  generalize pickRows _ picks = answers at hpicked
  have hafter := h.1.selectShared answers
  match answers with
  | [] => exact ⟨hafter, h.2⟩
  | [row] => exact ⟨hafter, h.2.1, .inr (hpicked row (mem_singleton_self row))⟩
  | _ :: _ :: _ => exact ⟨hafter, h.2⟩

theorem wp_askLVMClusterPool {tries : ℕ} (hapart : Apart state luns)
    (hdone : CephDone site state luns names selected asks l.config w)
    (hnone : ∀ e ∈ l.config.systems, e.2.microCephDisks = []) :
    wp (operator site) (fun _ => True) (fun _ l w => DisksDone site state names selected asks l.config w)
      (fun _ _ _ => True) (askLVMClusterPool site tries) l w := by
  unfold askLVMClusterPool
  rw [wp_bind, wp_locals]
  split_ifs
  · exact hdone.disksDone
  · rw [wp_bind, wp_assign, wp_bind]
    -- Nothing but the path is assigned, which is one that is offered, or none.
    refine wp_mono (Q := fun _ l' w => CephDone site state luns names selected asks l'.config w ∧
      l'.config = l.config ∧ (l'.lvmPath = "" ∨ ∃ lun ∈ l.config.shared, l'.lvmPath = formatDiskPath lun))
      (E := fun _ _ _ => True) (fun _ l' w h => ?_) (fun _ _ _ _ => trivial) ?_
    · obtain ⟨hdone, hsame, hpath⟩ := h
      rw [wp_assign]
      refine hdone.withLVM (hsame ▸ hnone) site.name fun m hselected => ?_
      rcases hpath with hempty | ⟨lun, hlun, hpath⟩
      · obtain ⟨row, hrow, -, hrowPath⟩ := (hdone.chosen m _).mp hselected
        exact hdone.rows.path_ne_empty hrow (hrowPath.trans hempty)
      · rw [hpath] at hselected
        rw [← hsame] at hlun
        exact hdone.toLocalSettled.lvm hapart hlun m hselected
    · refine wp_askRetry (fun l' w h => wp_selectShared h) (fun _ _ h => h) (fun l' w h => ?_)
        (fun _ _ _ => trivial) ⟨hdone, rfl, .inl rfl⟩
      rw [if_neg (by decide)]
      exact h

theorem wp_askSharedPool {tries : ℕ} (hapart : Apart state luns)
    (hdone : CephDone site state luns names selected asks l.config w) :
    wp (operator site) (fun _ => True) (fun _ l w => DisksDone site state names selected asks l.config w)
      (fun _ _ _ => True) (askSharedPool site tries) l w := by
  unfold askSharedPool
  rw [wp_bind, wp_locals]
  split_ifs with hremote
  · exact hdone.disksDone
  · have hnone := hdone.planned.resolve_left hremote
    cases l.config.existingSharedPool with
    | some pool => exact wp_joinSharedPool hdone.disksDone pool
    | none =>
      dsimp only
      split_ifs
      · exact hdone.disksDone
      · rw [wp_bind]
        refine wp_plain (c := .choose _) (fun _ _ => rfl) (fun choice => ?_) fun _ => trivial
        split_ifs
        · exact wp_askTrueNASPool hdone
        · exact wp_askLVMClusterPool hapart hdone hnone
        · exact hdone.disksDone

/-! ### All of the questions -/

theorem isDisk_keepShared {c : InitConfig} (h : IsDisk c.keepShared.state m disk) :
    IsDisk c.state m disk := by
  unfold InitConfig.keepShared at h
  split_ifs at h
  · obtain ⟨e, he, hm, d, hd, hdisk⟩ := h
    obtain ⟨e₀, he₀, rfl⟩ := List.mem_map.mp he
    exact ⟨e₀, he₀, hm, d, (mem_filter.mp hd).1, hdisk⟩
  · exact h

theorem apart_keepShared (c : InitConfig) (hfresh : c.sharedLUNs = []) :
    Apart c.keepShared.state c.keepShared.sharedLUNs := by
  unfold InitConfig.keepShared
  split_ifs
  · refine .inr fun m disk hdisk lun hlun hsame => ?_
    obtain ⟨e, he, -, d, hd, rfl⟩ := hdisk
    obtain ⟨e₀, -, rfl⟩ := List.mem_map.mp he
    have hother := (mem_filter.mp hd).2
    have hany : (sharedDisks c.state).any (fun lun => formatDiskPath d.2 = formatDiskPath lun) = true :=
      any_eq_true.mpr ⟨lun, hlun, decide_eq_true hsame⟩
    rw [hany] at hother
    cases hother
  · rw [hfresh]
    exact .inr fun _ _ _ _ hlun => (nomatch hlun)

theorem LocalRows.of_isDisk {state' : OrdMap String SystemInformation} (h : LocalRows state' rows)
    (hdisks : ∀ m disk, IsDisk state' m disk → IsDisk state m disk) : LocalRows state rows := by
  refine ⟨h.loop, fun row hrow htype => ?_⟩
  obtain ⟨disk, hdisk, hpath⟩ := h.device row hrow htype
  exact ⟨disk, hdisks _ _ hdisk, hpath⟩

theorem CephRows.of_isDisk {state' : OrdMap String SystemInformation} (h : CephRows state' selected asks rows)
    (hdisks : ∀ m disk, IsDisk state' m disk → IsDisk state m disk) : CephRows state selected asks rows := by
  refine ⟨h.asked, h.loop, fun row hrow htype => ?_⟩
  obtain ⟨disk, hdisk, hpath⟩ := h.device row hrow htype
  exact ⟨disk, hdisks _ _ hdisk, hpath⟩

def RealDisks (state : OrdMap String SystemInformation) : Prop :=
  ∀ m disk, IsDisk state m disk → disk.type ≠ diskTypeLoop

theorem askDisks_spec {tries : ℕ} (hreal : RealDisks state) {os : List Reply} {l : Asking} {asked : Asked}
    (hres : (askDisks site tries (Asking.start names state)).result (operator site) .nothing os =
      some ((.ok (), l), asked)) :
    ∃ selected asks, DisksDone site state names selected asks l.config asked := by
  have hwp : wp (operator site) (fun _ => True)
      (fun _ l w => ∃ selected asks, DisksDone site state names selected asks l.config w) (fun _ _ _ => True)
      (askDisks site tries) (Asking.start names state) .nothing := by
    unfold askDisks
    rw [wp_bind, wp_assign, wp_bind]
    have hdisks : ∀ m disk, IsDisk (Asking.start names state).config.keepShared.state m disk →
      IsDisk state m disk :=
      fun m disk => isDisk_keepShared
    have hoffering : Offering (Asking.start names state).config.keepShared.state
        (Asking.start names state).config.keepShared.sharedLUNs names
          (Asking.start names state).config.keepShared := by
      refine ⟨?_, rfl, rfl, fun e he d hd => ?_⟩
      · unfold InitConfig.keepShared
        split_ifs
        · rfl
        · rfl
      · have hdisk : IsDisk (Asking.start names state).config.keepShared.state e.1 d.2 :=
          ⟨e, he, rfl, d, hd, rfl⟩
        exact .inr ⟨hreal _ _ (hdisks _ _ hdisk), hdisk⟩
    refine wp_mono (fun _ l w h => ?_) (fun _ _ _ _ => trivial)
      (wp_askLocalPool hoffering ⟨rfl, rfl⟩ rfl)
    obtain ⟨selected, hlocal, hw⟩ := h
    rw [wp_bind]
    refine wp_mono (fun _ l w h => ?_) (fun _ _ _ _ => trivial) (wp_askRemotePool hlocal hw)
    obtain ⟨asks, hceph⟩ := h
    refine wp_mono (fun _ l w h => ?_) (fun _ _ _ _ => trivial)
      (wp_askSharedPool (apart_keepShared _ rfl) hceph)
    exact ⟨selected, asks, h.rows.of_isDisk hdisks, h.chosen, h.ceph.of_isDisk hdisks, h.keys,
      h.systems, h.others⟩
  exact (wp_iff_result _ _ _).mp hwp os _ _ _ hres

end IncusCloud.Firecloud
