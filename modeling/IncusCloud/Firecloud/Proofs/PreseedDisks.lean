import IncusCloud.Firecloud.Proofs.CephDisks
import IncusCloud.Firecloud.Proofs.Preseed
import IncusCloud.Lib.Checked

/-!
# The disks of a preseed

What Ceph and the local pool get of a system, and when no disk is given twice
(`onePool_iff_separate`).
-/

namespace IncusCloud.Firecloud

open Lib List

variable {p p₀ : Preseed} {m : Machines} {o : Orders} {peer path : String} {last : Option String}
  {filters : List DiskFilter} {disks : List Disk} {system s : InitSystem} {systems : List System}

/-! ### Names -/

theorem nodup_validateNames {systemNames : List String} (h : validateNames systems systemNames = .ok ())
    (hnodup : systemNames.Nodup) : (systemNames ++ systems.map (·.name)).Nodup := by
  induction systems generalizing systemNames with
  | nil =>
    rw [map_nil, append_nil]
    exact hnodup
  | cons system systems ih =>
    unfold validateNames at h
    split_ifs at h with hempty hthere
    have hnext : (systemNames ++ [system.name]).Nodup := by
      refine nodup_append'.mpr ⟨hnodup, nodup_singleton _, fun name hname hsame => hthere ?_⟩
      rwa [mem_singleton.mp hsame] at hname
    have hrest := ih h hnext
    rwa [append_assoc, singleton_append] at hrest

theorem nodup_of_validate {name : String} {bootstrap : Bool}
    (h : p₀.validate name bootstrap = .ok p) : (p.systems.map (·.name)).Nodup := by
  obtain ⟨_, hsystems, h⟩ := bind_eq_ok.mp h
  obtain ⟨_, -, h⟩ := bind_eq_ok.mp h
  obtain ⟨filters, -, h⟩ := bind_eq_ok.mp h
  obtain rfl := Except.ok.inj h
  unfold Preseed.validateSystems at hsystems
  by_cases hnone : p₀.systems = []
  · rw [if_pos hnone] at hsystems
    cases hsystems
  · rw [if_neg hnone] at hsystems
    obtain ⟨_, hnames, -⟩ := bind_eq_ok.mp hsystems
    exact nodup_validateNames hnames nodup_nil

theorem foldl_direct_of_ne (start : InitStorage) (hne : ∀ sys ∈ systems, sys.name ≠ peer) :
    systems.foldl (fun storage sys => if sys.name = peer then sys.storage else storage) start = start := by
  induction systems with
  | nil => rfl
  | cons sys systems ih =>
    rw [foldl_cons, if_neg (hne sys mem_cons_self)]
    exact ih fun sys' h => hne sys' (mem_cons_of_mem _ h)

theorem direct_of_mem (hnodup : (p.systems.map (·.name)).Nodup) {sys : System}
    (hsys : sys ∈ p.systems) : p.direct sys.name = sys.storage := by
  unfold Preseed.direct
  generalize ({} : InitStorage) = start
  generalize p.systems = systems at hnodup hsys
  induction systems generalizing start with
  | nil => cases hsys
  | cons sys' systems ih =>
    rw [map_cons, nodup_cons] at hnodup
    rw [foldl_cons]
    rcases mem_cons.mp hsys with rfl | hsys
    · rw [if_pos rfl]
      exact foldl_direct_of_ne _ fun s hs h => hnodup.1 (h ▸ mem_map_of_mem hs)
    · exact ih _ hnodup.2 hsys

theorem not_filtered_of_givesLocal (hnodup : (p.systems.map (·.name)).Nodup)
    (hgives : givesLocal p peer = true) : peer ∉ p.checkFilterZFS := by
  intro hfiltered
  obtain ⟨sys, hsys, rfl⟩ := List.mem_map.mp hfiltered
  obtain ⟨hsys, hnone⟩ := mem_filter.mp hsys
  unfold givesLocal at hgives
  rw [direct_of_mem hnodup hsys, of_decide_eq_true hnone] at hgives
  exact absurd hgives (by decide)

/-! ### Ceph's disks -/

theorem perm_picks (filters : List DiskFilter) (disks : List Disk) :
    ((picks m peer filters disks).map (·.2)).Perm
      (disks.filter fun disk => filters.any fun f => m.finds f.find peer disk) := by
  induction filters generalizing disks with
  | nil => simp [picks]
  | cons f filters ih =>
    have hsplit := filter_append_perm (fun disk => m.finds f.find peer disk)
      (disks.filter fun disk => (f :: filters).any fun f => m.finds f.find peer disk)
    have hfirst : (disks.filter fun disk => (f :: filters).any fun f => m.finds f.find peer disk).filter
        (fun disk => m.finds f.find peer disk) = f.matching m peer disks := by
      rw [filter_filter]
      refine filter_congr fun disk _ => ?_
      rw [any_cons]
      cases m.finds f.find peer disk with
      | true => rfl
      | false => rfl
    have hrest : (disks.filter fun disk => (f :: filters).any fun f => m.finds f.find peer disk).filter
        (fun disk => !m.finds f.find peer disk) =
          (disks.filter fun disk => !m.finds f.find peer disk).filter
            fun disk => filters.any fun f => m.finds f.find peer disk := by
      rw [filter_filter, filter_filter]
      refine filter_congr fun disk _ => ?_
      rw [any_cons]
      cases m.finds f.find peer disk with
      | true => simp
      | false => simp
    rw [hfirst, hrest] at hsplit
    unfold picks
    rw [map_append, map_map]
    have hid : (f.matching m peer disks).map ((·.2) ∘ fun disk => (f, disk)) =
      f.matching m peer disks := map_id _
    rw [hid]
    exact ((ih _).append_left _).trans hsplit

def cephFound (p : Preseed) (m : Machines) (peer : String) : List Disk :=
  if peer ∈ p.checkFilterCeph then
    (m.disks peer).filter fun disk => p.storage.ceph.any fun f => m.finds f.find peer disk
  else []

def cephPaths (p : Preseed) (m : Machines) (peer : String) : List String :=
  (p.direct peer).ceph.map (·.path) ++ (cephFound p m peer).map formatDiskPath

theorem perm_cephPicks : ((cephPicks p m peer).map (·.2)).Perm (cephFound p m peer) := by
  unfold cephPicks cephFound
  split_ifs
  · exact perm_picks _ _
  · exact .refl _

/-! ### What each step leaves -/

theorem withSharedPools_keeps {Q : InitSystem → Prop} (hasCeph : Bool) (hs : Q s)
    (hceph : ∀ s, Q s → Q (withCephPool m peer s)) (hfs : ∀ s, Q s → Q (withCephFSPool m peer s)) :
    Q (withSharedPools p m hasCeph peer s) := by
  have hpool : Q (if hasCeph then withCephPool m peer s else s) := by
    split_ifs
    · exact hceph s hs
    · exact hs
  show Q (if _ then withCephFSPool m peer (if hasCeph then withCephPool m peer s else s)
    else if hasCeph then withCephPool m peer s else s)
  by_cases hshared : ((hasCeph && p.cephFS) || m.hasCephFS) = true
  · rw [if_pos hshared]
    exact hfs _ hpool
  · rw [if_neg hshared]
    exact hpool

theorem microCephDisks_withSharedPools (hasCeph : Bool) :
    (withSharedPools p m hasCeph peer s).microCephDisks = s.microCephDisks := by
  refine withSharedPools_keeps (Q := fun t => t.microCephDisks = s.microCephDisks) hasCeph rfl (fun t h => h)
    fun t h => ?_
  rw [← h]
  unfold withCephFSPool
  cases m.bootstrap with
  | true => rfl
  | false => rfl

theorem microCephDisks_zfsSystem : (zfsSystem p m last peer s).microCephDisks = s.microCephDisks := by
  unfold zfsSystem
  generalize applied p m last peer = filters
  induction filters generalizing s with
  | nil => rfl
  | cons f filters ih =>
    rw [foldl_cons, ih]
    exact microCephDisks_addLocal _ _

theorem microCephDisks_cephSystem : (cephSystem p m peer s).microCephDisks.map (·.path) =
    s.microCephDisks.map (·.path) ++ (cephPicks p m peer).map fun pick => formatDiskPath pick.2 := by
  unfold cephSystem
  split_ifs with hnone
  · rw [hnone, map_nil, append_nil]
  · have hpool : ∀ system, (addCephPool m peer system).microCephDisks = system.microCephDisks := by
      intro system
      unfold addCephPool
      cases m.bootstrap with
      | true => rfl
      | false => rfl
    rw [hpool]
    unfold withOSDs
    rw [map_append, map_map]
    rfl

theorem perm_cephPaths :
    ((foundSystem p m last peer).microCephDisks.map (·.path)).Perm (cephPaths p m peer) := by
  unfold foundSystem cephPaths
  rw [microCephDisks_withSharedPools, microCephDisks_zfsSystem, microCephDisks_cephSystem,
    microCephDisks_directSystem rfl, map_map]
  refine List.Perm.append_left _ ?_
  have hpicks : ((cephPicks p m peer).map (·.2)).Perm (cephFound p m peer) := perm_cephPicks
  have hperm := hpicks.map formatDiskPath
  rwa [map_map] at hperm

/-! ### The local pool's disks -/

def localSources (s : InitSystem) : List String := s.localDisks.map (·.1)

theorem localSources_eq (s : InitSystem) : localSources s =
    (s.targetStoragePools.filterMap InitSystem.localDisk).map (·.1) ++
      (s.joinConfig.filter fun k => k.name = defaultZFSPool && k.key = "source").map (·.value) := by
  unfold localSources InitSystem.localDisks
  rw [map_append, map_map]
  rfl

theorem localSources_addLocal (path : String) (wipe : Bool) :
    (localSources (addLocal m peer path wipe s)).Perm (localSources s ++ [path]) := by
  rw [localSources_eq, localSources_eq]
  unfold addLocal
  by_cases hbootstrap : m.bootstrap = true
  · rw [if_pos hbootstrap]
    have hdisk : [defaultPendingZFSStoragePool wipe path].filterMap InitSystem.localDisk =
      [(path, wipe)] := by
      cases wipe with
      | true => rfl
      | false => rfl
    rw [filterMap_append, hdisk, map_append, append_assoc, append_assoc]
    exact List.Perm.append_left _ perm_append_comm
  · rw [if_neg hbootstrap]
    have hsource : (defaultZFSStoragePoolJoinConfig wipe path).filter
        (fun k => k.name = defaultZFSPool && k.key = "source") = [poolKey defaultZFSPool "source" path] := by
      cases wipe with
      | true => rfl
      | false => rfl
    rw [filter_append, hsource, map_append, append_assoc]
    exact .refl _

theorem localSources_targeted {s' : InitSystem} {pools : List StoragePoolsPost}
    (hpools : ∀ pool ∈ pools, pool.name ≠ defaultZFSPool)
    (htarget : s'.targetStoragePools = s.targetStoragePools ++ pools) (hjoin : s'.joinConfig = s.joinConfig) :
    localSources s' = localSources s := by
  unfold localSources
  rw [localDisks_targeted hpools htarget hjoin]

theorem name_pendingCeph (dropSource : Bool) :
    ∀ pool ∈ [defaultPendingCephStoragePool dropSource], pool.name ≠ defaultZFSPool := by
  intro pool hpool
  rw [mem_singleton.mp hpool]
  show defaultCephPool ≠ defaultZFSPool
  decide

theorem localSources_withSharedPools (hasCeph : Bool) :
    localSources (withSharedPools p m hasCeph peer s) = localSources s := by
  refine withSharedPools_keeps (Q := fun t => localSources t = localSources s) hasCeph rfl (fun t h => ?_)
    fun t h => ?_
  · rw [← h]
    refine localSources_targeted (fun pool hpool => ?_) rfl rfl
    split_ifs at hpool
    · exact name_pendingCeph _ pool hpool
    · cases hpool
  · rw [← h]
    unfold withCephFSPool
    by_cases hbootstrap : m.bootstrap = true
    · rw [if_pos hbootstrap]
      refine localSources_targeted (fun pool hpool => ?_) rfl rfl
      rw [mem_singleton.mp hpool]
      show defaultCephFSPool ≠ defaultZFSPool
      decide
    · rw [if_neg hbootstrap]
      have hkeys : ∀ k ∈ defaultCephFSStoragePoolJoinConfig m.dropSource, k.name ≠ defaultZFSPool := by
        intro k hk
        unfold defaultCephFSStoragePoolJoinConfig at hk
        split_ifs at hk
        · cases hk
        · rw [mem_singleton.mp hk]
          show defaultCephFSPool ≠ defaultZFSPool
          decide
      exact congrArg (List.map fun disk : String × Bool => disk.1) (localDisks_joined hkeys rfl rfl)

theorem localSources_cephSystem : localSources (cephSystem p m peer s) = localSources s := by
  unfold cephSystem
  split_ifs
  · rfl
  · unfold addCephPool
    by_cases hbootstrap : m.bootstrap = true
    · rw [if_pos hbootstrap]
      exact localSources_targeted (name_pendingCeph m.dropSource) rfl rfl
    · rw [if_neg hbootstrap]
      rfl

theorem localSources_zfsSystem : (localSources (zfsSystem p m last peer s)).Perm
    (localSources s ++ (applied p m last peer).map (firstPath m peer)) := by
  unfold zfsSystem
  generalize applied p m last peer = filters
  induction filters generalizing s with
  | nil =>
    rw [map_nil, append_nil]
    exact .refl _
  | cons f filters ih =>
    rw [foldl_cons, map_cons]
    refine ih.trans ?_
    have hadd : (localSources (addLocal m peer (firstPath m peer f) f.wipe s)).Perm
        (localSources s ++ [firstPath m peer f]) := localSources_addLocal (firstPath m peer f) f.wipe
    have hfirst := hadd.append_right (filters.map (firstPath m peer))
    rwa [append_assoc, singleton_append] at hfirst

theorem perm_localSources : (localSources (foundSystem p m last peer)).Perm
    ((if givesLocal p peer then [(p.direct peer).localDisk.path] else []) ++
      (applied p m last peer).map (firstPath m peer)) := by
  have hdirect : (localSources (directSystem p m peer .empty)).Perm
      (if givesLocal p peer then [(p.direct peer).localDisk.path] else []) := by
    by_cases hgives : (p.direct peer).localDisk.path = ""
    · have hgives' : givesLocal p peer = false := by simp [givesLocal, hgives]
      rw [hgives']
      unfold directSystem
      simp only [hgives, ne_eq, not_true_eq_false, if_false]
      exact .refl _
    · have hgives' : givesLocal p peer = true := decide_eq_true hgives
      rw [hgives', if_pos rfl]
      unfold directSystem
      simp only [ne_eq, hgives, not_false_eq_true, if_true]
      exact localSources_addLocal _ _
  unfold foundSystem
  rw [localSources_withSharedPools]
  refine localSources_zfsSystem.trans ?_
  rw [localSources_cephSystem]
  exact hdirect.append_right _

/-! ### One pool for each disk -/

structure OnePool (s : InitSystem) : Prop where
  ceph : (s.microCephDisks.map (·.path)).Nodup
  separate : ∀ path ∈ localSources s, path ∉ s.microCephDisks.map (·.path)
  single : (localSources s).length ≤ 1

def localPath (p : Preseed) (m : Machines) (peer : String) : Option String :=
  if givesLocal p peer then some (p.direct peer).localDisk.path
  else (localHits p m peer).head?.map (firstPath m peer)

/-- When a system's disks are kept apart: what Ceph gets has distinct paths, what the local pool
gets is none of them, and at most one local filter finds a disk, except on the system that the loop
stops at. -/
structure Separate (p : Preseed) (m : Machines) (o : Orders) (peer : String) : Prop where
  ceph : (cephPaths p m peer).Nodup
  separate : ∀ path ∈ localPath p m peer, path ∉ cephPaths p m peer
  single : (localHits p m peer).length ≤ 1 ∨ Stops p m ∧ o.zfs.getLast? = some peer

theorem length_applied : (applied p m last peer).length ≤ 1 ↔
    (localHits p m peer).length ≤ 1 ∨ Stops p m ∧ last = some peer := by
  unfold applied
  split_ifs with hstop
  · exact iff_of_true (length_take_le _ _) (.inr hstop)
  · exact ⟨.inl, fun h => h.resolve_right hstop⟩

theorem head?_applied : (applied p m last peer).head? = (localHits p m peer).head? := by
  unfold applied
  split_ifs
  · cases localHits p m peer with
    | nil => rfl
    | cons f filters => rfl
  · rfl

theorem localHits_of_givesLocal (hnodup : (p.systems.map (·.name)).Nodup)
    (hgives : givesLocal p peer = true) : localHits p m peer = [] :=
  if_neg (not_filtered_of_givesLocal hnodup hgives)

theorem length_localSources (hnodup : (p.systems.map (·.name)).Nodup) :
    (localSources (foundSystem p m last peer)).length ≤ 1 ↔
      (localHits p m peer).length ≤ 1 ∨ Stops p m ∧ last = some peer := by
  rw [perm_localSources.length_eq, ← length_applied, length_append, length_map]
  cases hgives : givesLocal p peer with
  | true =>
    have hnone : applied p m last peer = [] := applied_eq_nil.mpr (localHits_of_givesLocal hnodup hgives)
    simp [hnone]
  | false => simp

theorem mem_localSources (hnodup : (p.systems.map (·.name)).Nodup)
    (hsingle : (localHits p m peer).length ≤ 1 ∨ Stops p m ∧ last = some peer) :
    path ∈ localSources (foundSystem p m last peer) ↔ path ∈ localPath p m peer := by
  rw [perm_localSources.mem_iff]
  unfold localPath
  cases hgives : givesLocal p peer with
  | true =>
    have hnone : applied p m last peer = [] := applied_eq_nil.mpr (localHits_of_givesLocal hnodup hgives)
    simp [hnone, eq_comm]
  | false =>
    have hhead : (applied p m last peer).head? = (localHits p m peer).head? := head?_applied
    rw [← hhead]
    have hlength := length_applied.mpr hsingle
    match hfilters : applied p m last peer with
    | [] => simp
    | [f] => simp [eq_comm]
    | _ :: _ :: _ =>
      rw [hfilters] at hlength
      simp at hlength

theorem onePool_iff (hnodup : (p.systems.map (·.name)).Nodup) :
    OnePool (foundSystem p m o.zfs.getLast? peer) ↔ Separate p m o peer := by
  constructor
  · rintro ⟨hceph, hseparate, hsingle⟩
    have hsingle' := (length_localSources hnodup).mp hsingle
    refine ⟨perm_cephPaths.nodup_iff.mp hceph, fun path hpath hin => ?_, hsingle'⟩
    exact hseparate path ((mem_localSources hnodup hsingle').mpr hpath) (perm_cephPaths.mem_iff.mpr hin)
  · rintro ⟨hceph, hseparate, hsingle⟩
    refine ⟨perm_cephPaths.nodup_iff.mpr hceph, fun path hpath hin => ?_,
      (length_localSources hnodup).mpr hsingle⟩
    exact hseparate path ((mem_localSources hnodup hsingle).mp hpath) (perm_cephPaths.mem_iff.mp hin)

/-- A preseed gives each disk to one pool if and only if each system's disks are kept apart. -/
theorem onePool_iff_separate (hvalid : p₀.validate m.name m.bootstrap = .ok p) (ho : o.Possible p m)
    {r : OrdMap String InitSystem} (hparse : p.parse m o = .ok r) :
    (∀ e ∈ r, OnePool e.2) ↔ ∀ peer ∈ m.systems, Separate p m o peer := by
  have hnodup := nodup_of_validate hvalid
  rw [((parse_ok_iff ho).mp hparse).2]
  unfold table
  rw [forall_mem_map]
  exact forall₂_congr fun peer _ => onePool_iff hnodup

section

def twoMachines : Machines where
  name := "a"
  bootstrap := true
  systems := ["a", "b"]
  resources _ := [{ id := "sda", type := "scsi", deviceID := "", devicePath := "", partitions := 0 },
    { id := "nvme0n1", type := "nvme", deviceID := "", devicePath := "", partitions := 0 }]
  finds find _ disk := find = disk.type
  dropSource := false
  rbdDefaults := true
  hasCephFS := false
  nodup := by decide
  ids _ := by decide
  self _ := mem_cons_self

def filtersApart : Preseed where
  systems := [⟨"a", {}⟩, ⟨"b", {}⟩]
  cephFS := false
  storage := ⟨[{ find := "scsi", findMin := 1, findMax := 0 }], [{ find := "nvme", findMin := 1, findMax := 0 }]⟩

def backwards : Orders := ⟨["b", "a"], ["b", "a"], ["b", "a"]⟩

theorem backwards_possible : backwards.Possible filtersApart twoMachines :=
  ⟨.swap _ _ _, .swap _ _ _, .swap _ _ _⟩

/-- On both systems the Ceph filter finds one of the disks, and the local filter the other. -/
theorem each_disk_is_for_one_pool :
    ∃ r, filtersApart.parse twoMachines backwards = .ok r ∧ ∀ e ∈ r, OnePool e.2 := by
  have hverdict : verdict filtersApart twoMachines backwards.zfs.getLast? = .ok () := by decide
  have hparse := (parse_ok_iff (p := filtersApart) backwards_possible).mpr ⟨hverdict, rfl⟩
  have hvalid : filtersApart.validate twoMachines.name twoMachines.bootstrap = .ok filtersApart := rfl
  refine ⟨_, hparse, (onePool_iff_separate hvalid backwards_possible hparse).mpr fun peer hpeer => ?_⟩
  have hpeer : peer = "a" ∨ peer = "b" := by simpa [twoMachines] using hpeer
  rcases hpeer with rfl | rfl
  · exact ⟨by decide, by decide, .inl (by decide)⟩
  · exact ⟨by decide, by decide, .inl (by decide)⟩

def oneMachine : Machines where
  name := "a"
  bootstrap := true
  systems := ["a"]
  resources _ := [{ id := "sda", type := "scsi", deviceID := "", devicePath := "", partitions := 0 }]
  finds _ _ _ := true
  dropSource := false
  rbdDefaults := true
  hasCephFS := false
  nodup := nodup_singleton "a"
  ids _ := nodup_singleton "sda"
  self _ := mem_singleton_self "a"

def anyDisk : DiskFilter := { find := "size > 0", findMin := 1, findMax := 0 }

def bothFilters : Preseed := ⟨[⟨"a", {}⟩], false, ⟨[anyDisk], [anyDisk]⟩⟩

def oneOrder : Orders := ⟨["a"], ["a"], ["a"]⟩

theorem oneOrder_possible {filters : StorageFilter} :
    oneOrder.Possible ⟨[⟨"a", {}⟩], false, filters⟩ oneMachine :=
  ⟨.refl _, .refl _, .refl _⟩

/-- One disk that both a Ceph filter and a local filter find: it goes to both pools. -/
theorem a_disk_goes_to_both_pools : bothFilters.validate oneMachine.name oneMachine.bootstrap =
    .ok bothFilters ∧
    oneOrder.Possible bothFilters oneMachine ∧
    ∃ r, bothFilters.parse oneMachine oneOrder = .ok r ∧ ¬ ∀ e ∈ r, OnePool e.2 := by
  have hverdict : verdict bothFilters oneMachine oneOrder.zfs.getLast? = .ok () := by decide
  have hparse := (parse_ok_iff (p := bothFilters) oneOrder_possible).mpr ⟨hverdict, rfl⟩
  refine ⟨rfl, oneOrder_possible, _, hparse, fun hall => ?_⟩
  have hpool := hall ("a", foundSystem bothFilters oneMachine oneOrder.zfs.getLast? "a") mem_cons_self
  exact hpool.separate "/dev/sda" (by decide) (by decide)

end

end IncusCloud.Firecloud
