import IncusCloud.Firecloud.Preseed
import IncusCloud.Lib.Table
import Mathlib.Data.List.Perm.Basic

/-!
# What a preseed comes to

The loops of `Parse` are over maps, so that their orders are Go's. What comes of them is said
without an order: only the last system whose local disks are filtered matters (`parse_eq`), since
the loop over the local filters stops there after the first that finds a disk, where every machine
has one.
-/

namespace IncusCloud.Firecloud

open Lib List

variable {p : Preseed} {m : Machines} {o : Orders} {peer find : String} {last : Option String}
  {f : DiskFilter} {filters : List DiskFilter} {disks : List Disk} {system : InitSystem}

/-! ### Counters -/

theorem get_increment (c : OrdMap String ℕ) (k k' : String) :
    ((increment c k).get k').getD 0 = (c.get k').getD 0 + if k' = k then 1 else 0 := by
  unfold increment
  rw [OrdMap.get_set]
  split_ifs with h
  · rw [h]
    rfl
  · rfl

theorem get_foldl_increment (ks : List String) (c : OrdMap String ℕ) (k : String) :
    ((ks.foldl increment c).get k).getD 0 = (c.get k).getD 0 + ks.count k := by
  induction ks generalizing c with
  | nil => rfl
  | cons k' ks ih =>
    rw [foldl_cons, ih, get_increment, count_cons]
    by_cases h : k = k'
    · simp [h]
      omega
    · simp [h, Ne.symm h]

theorem length_increment (c : OrdMap String ℕ) (k : String) : 0 < (increment c k).length := by
  unfold increment OrdMap.set
  split_ifs with h
  · obtain ⟨e, he, -⟩ := any_eq_true.mp h
    rw [length_map]
    exact length_pos_of_mem he
  · simp

theorem length_foldl_increment (ks : List String) (c : OrdMap String ℕ) :
    0 < (ks.foldl increment c).length ↔ 0 < c.length ∨ ks ≠ [] := by
  induction ks generalizing c with
  | nil => simp
  | cons k ks ih =>
    rw [foldl_cons, ih]
    simp [length_increment]

/-! ### Direct disks -/

theorem microCephDisks_addLocal (path : String) (wipe : Bool) :
    (addLocal m peer path wipe system).microCephDisks = system.microCephDisks := by
  unfold addLocal
  cases m.bootstrap with
  | true => rfl
  | false => rfl

theorem microCephDisks_directSystem (hfresh : system.microCephDisks = []) :
    (directSystem p m peer system).microCephDisks =
      (p.direct peer).ceph.map fun disk => ⟨disk.path, disk.wipe, disk.encrypt⟩ := by
  unfold directSystem
  dsimp only
  split_ifs
  · rw [microCephDisks_addLocal, hfresh, nil_append]
  · rw [hfresh, nil_append]

def givesLocal (p : Preseed) (peer : String) : Bool := (p.direct peer).localDisk.path ≠ ""

def givesCeph (p : Preseed) (peer : String) : Bool := 0 < (p.direct peer).ceph.length

variable {F : String → InitSystem}

theorem foldl_addDirect {order : List String} (hnodup : order.Nodup) (hsub : ∀ peer ∈ order,
    peer ∈ m.systems) (hfresh : ∀ peer ∈ order, (F peer).microCephDisks = []) (a b : ℕ)
    (ceph zfs : OrdMap String ℕ) (machines : List String) :
    order.foldl (addDirect p m) ⟨table m.systems F, a, b, ceph, zfs, machines⟩ =
      ⟨table m.systems fun peer => if peer ∈ order then directSystem p m peer (F peer) else F peer,
        a + order.countP (givesCeph p), b + order.countP (givesLocal p), ceph, zfs, machines⟩ := by
  induction order generalizing F a b with
  | nil => simp
  | cons peer order ih =>
    have hpeer := hsub peer mem_cons_self
    have hmem := (nodup_cons.mp hnodup).1
    have hceph : (directSystem p m peer (F peer)).microCephDisks.length = (p.direct peer).ceph.length := by
      rw [microCephDisks_directSystem (hfresh peer mem_cons_self), length_map]
    have hfresh' : ∀ k ∈ order,
        (Function.update F peer (directSystem p m peer (F peer)) k).microCephDisks = [] := by
      intro k hk
      have hne : k ≠ peer := fun h => hmem (h ▸ hk)
      rw [Function.update_of_ne hne]
      exact hfresh k (mem_cons_of_mem _ hk)
    have hstep : addDirect p m ⟨table m.systems F, a, b, ceph, zfs, machines⟩ peer =
        ⟨table m.systems (Function.update F peer (directSystem p m peer (F peer))),
          a + if givesCeph p peer then 1 else 0, b + if givesLocal p peer then 1 else 0, ceph, zfs,
            machines⟩ := by
      unfold addDirect
      simp only [get_table hpeer, Option.getD_some, set_table hpeer, hceph, givesCeph, givesLocal,
        decide_eq_true_eq]
    rw [foldl_cons, hstep, ih (nodup_cons.mp hnodup).2 (fun k hk => hsub k (mem_cons_of_mem _ hk))
      hfresh', update_rest (directSystem p m) F hmem, countP_cons, countP_cons]
    congr 1
    · omega
    · omega

/-! ### Ceph's filters -/

def picks (m : Machines) (peer : String) : List DiskFilter → List Disk → List (DiskFilter × Disk)
  | [], _ => []
  | f :: filters, disks =>
    (f.matching m peer disks).map (fun disk => (f, disk)) ++
      picks m peer filters (disks.filter fun disk => !m.finds f.find peer disk)

def withOSDs (picked : List (DiskFilter × Disk)) (system : InitSystem) : InitSystem :=
  { system with microCephDisks :=
    system.microCephDisks ++ picked.map fun pick => ⟨formatDiskPath pick.2, pick.1.wipe, pick.1.encrypt⟩ }

def CephFiltering.after (m : Machines) (peer : String) (v : CephFiltering)
    (picked : List (DiskFilter × Disk)) (disks : List Disk) : CephFiltering where
  system :=
    if v.addedCephPool || picked = [] then withOSDs picked v.system
    else addCephPool m peer (withOSDs picked v.system)
  disks := disks
  addedCephPool := v.addedCephPool || picked ≠ []
  cephMatches := (picked.map fun pick => pick.1.find).foldl increment v.cephMatches

theorem withOSDs_append (picked picked' : List (DiskFilter × Disk)) :
    withOSDs picked' (withOSDs picked system) = withOSDs (picked ++ picked') system := by
  unfold withOSDs
  rw [map_append, append_assoc]

theorem withOSDs_addCephPool (picked : List (DiskFilter × Disk)) :
    withOSDs picked (addCephPool m peer system) = addCephPool m peer (withOSDs picked system) := by
  unfold addCephPool
  cases m.bootstrap with
  | true => rfl
  | false => rfl

theorem CephFiltering.after_append (v : CephFiltering) (picked picked' : List (DiskFilter × Disk))
    (disks disks' : List Disk) :
    (v.after m peer picked disks).after m peer picked' disks' =
      v.after m peer (picked ++ picked') disks' := by
  unfold CephFiltering.after
  have hnil : withOSDs [] v.system = v.system := by
    unfold withOSDs
    rw [map_nil, append_nil]
  cases v.addedCephPool with
  | true => simp [withOSDs_append]
  | false =>
    cases picked with
    | nil => simp [hnil]
    | cons pick picked => simp [withOSDs_addCephPool, withOSDs_append]

theorem foldl_addCephDisk (matched : List Disk) (v : CephFiltering) :
    matched.foldl (addCephDisk m peer f) v = v.after m peer (matched.map fun disk => (f, disk)) v.disks := by
  induction matched generalizing v with
  | nil =>
    unfold CephFiltering.after withOSDs
    simp
  | cons disk matched ih =>
    have hstep : addCephDisk m peer f v disk = v.after m peer [(f, disk)] v.disks := by
      unfold addCephDisk CephFiltering.after withOSDs
      simp
    rw [foldl_cons, ih, hstep, CephFiltering.after_append]
    rfl

theorem filter_unmatched (hids : (disks.map (·.id)).Nodup) :
    (disks.filter fun disk => !((f.matching m peer disks).any fun found => disk.id = found.id)) =
      disks.filter fun disk => !m.finds f.find peer disk := by
  refine filter_congr fun disk hdisk => congrArg (! ·) ?_
  rw [Bool.eq_iff_iff, any_eq_true]
  constructor
  · rintro ⟨found, hfound, hid⟩
    obtain ⟨hmem, hfinds⟩ := mem_filter.mp hfound
    rw [inj_on_of_nodup_map hids hdisk hmem (of_decide_eq_true hid)]
    exact hfinds
  · intro hfinds
    exact ⟨disk, mem_filter.mpr ⟨hdisk, hfinds⟩, decide_eq_true rfl⟩

theorem addCephFilter_eq {v : CephFiltering} (hids : (v.disks.map (·.id)).Nodup) :
    addCephFilter m peer v f = v.after m peer ((f.matching m peer v.disks).map fun disk => (f, disk))
      (v.disks.filter fun disk => !m.finds f.find peer disk) := by
  unfold addCephFilter
  simp only [foldl_addCephDisk]
  rw [← filter_unmatched hids]
  congr 1
  split_ifs with hsome
  · rfl
  · have hnone : f.matching m peer v.disks = [] := by
      rwa [length_pos_iff, not_not] at hsome
    rw [hnone]
    simp

theorem foldl_addCephFilter {v : CephFiltering} (hids : (v.disks.map (·.id)).Nodup) :
    ∃ rest, filters.foldl (addCephFilter m peer) v = v.after m peer (picks m peer filters v.disks) rest := by
  induction filters generalizing v with
  | nil =>
    refine ⟨v.disks, ?_⟩
    unfold CephFiltering.after picks withOSDs
    simp
  | cons f filters ih =>
    rw [foldl_cons, addCephFilter_eq hids]
    have hids' : (((v.disks.filter fun disk => !m.finds f.find peer disk)).map (·.id)).Nodup :=
      hids.sublist (filter_sublist.map _)
    obtain ⟨rest, hrest⟩ := ih (v := v.after m peer ((f.matching m peer v.disks).map fun disk => (f, disk))
      (v.disks.filter fun disk => !m.finds f.find peer disk)) hids'
    exact ⟨rest, by rw [hrest, CephFiltering.after_append]; rfl⟩

def cephPicks (p : Preseed) (m : Machines) (peer : String) : List (DiskFilter × Disk) :=
  if peer ∈ p.checkFilterCeph then picks m peer p.storage.ceph (m.disks peer) else []

def cephSystem (p : Preseed) (m : Machines) (peer : String) (system : InitSystem) : InitSystem :=
  if cephPicks p m peer = [] then system else addCephPool m peer (withOSDs (cephPicks p m peer) system)

theorem nodup_disks (m : Machines) (peer : String) : ((m.disks peer).map (·.id)).Nodup := by
  have hsub := (filter_sublist (p := fun disk => decide (disk.partitions = 0)) (l := m.resources peer)).map
    fun disk : ResourcesStorageDisk => disk.id
  have hids := (m.ids peer).sublist hsub
  unfold Machines.disks
  rwa [map_map]

theorem foldl_addCeph {order : List String} (hnodup : order.Nodup)
    (hsub : ∀ peer ∈ order, peer ∈ m.systems ∧ peer ∈ p.checkFilterCeph) (a b : ℕ)
    (ceph zfs : OrdMap String ℕ) (machines : List String) :
    order.foldl (addCeph p m) ⟨table m.systems F, a, b, ceph, zfs, machines⟩ =
      ⟨table m.systems fun peer => if peer ∈ order then cephSystem p m peer (F peer) else F peer, a, b,
        (order.flatMap fun peer => (cephPicks p m peer).map fun pick =>
          pick.1.find).foldl increment ceph, zfs,
        machines⟩ := by
  induction order generalizing F ceph with
  | nil => simp
  | cons peer order ih =>
    obtain ⟨hpeer, hfiltered⟩ := hsub peer mem_cons_self
    have hstep : addCeph p m ⟨table m.systems F, a, b, ceph, zfs, machines⟩ peer =
        ⟨table m.systems (Function.update F peer (cephSystem p m peer (F peer))), a, b,
          ((cephPicks p m peer).map fun pick => pick.1.find).foldl increment ceph, zfs, machines⟩ := by
      have hafter : ∃ rest, p.storage.ceph.foldl (addCephFilter m peer) ⟨F peer, m.disks peer, false, ceph⟩ =
          CephFiltering.after m peer ⟨F peer, m.disks peer, false, ceph⟩
            (picks m peer p.storage.ceph (m.disks peer))
            rest := foldl_addCephFilter (nodup_disks m peer)
      obtain ⟨rest, hrest⟩ := hafter
      unfold addCeph
      simp only [get_table hpeer, Option.getD_some]
      rw [hrest]
      unfold cephSystem cephPicks CephFiltering.after
      rw [if_pos hfiltered]
      simp only [Bool.false_or, decide_eq_true_eq, set_table hpeer]
      split_ifs with hnone
      · rw [hnone]
        simp [withOSDs]
      · rfl
    rw [foldl_cons, hstep, ih (nodup_cons.mp hnodup).2 fun k hk => hsub k (mem_cons_of_mem _ hk),
      update_rest (cephSystem p m) F (nodup_cons.mp hnodup).1, flatMap_cons, foldl_append]

/-! ### The local filters -/

def DiskFilter.hits (m : Machines) (peer : String) (f : DiskFilter) : Bool :=
    f.matching m peer (m.disks peer) ≠ []

def firstPath (m : Machines) (peer : String) (f : DiskFilter) : String :=
  ((f.matching m peer (m.disks peer)).head?.map formatDiskPath).getD ""

def addHit (m : Machines) (peer : String) (system : InitSystem) (f : DiskFilter) : InitSystem :=
  addLocal m peer (firstPath m peer f) f.wipe system

def LocalFiltering.after (m : Machines) (peer : String) (v : LocalFiltering)
    (applied : List DiskFilter) : LocalFiltering where
  system := applied.foldl (addHit m peer) v.system
  zfsMatches := (applied.map (·.find)).foldl increment v.zfsMatches
  zfsMachines := if applied = [] ∨ peer ∈ v.zfsMachines then v.zfsMachines else v.zfsMachines ++ [peer]

variable {v : LocalFiltering}

theorem addLocalFilters_stopped (hstop : v.zfsMachines.length = m.systems.length) :
    addLocalFilters m peer filters v = v := by
  cases filters with
  | nil => rfl
  | cons f filters => exact if_pos hstop

theorem addLocalFilters_miss (hmiss : f.hits m peer = false) :
    addLocalFilters m peer (f :: filters) v = addLocalFilters m peer filters v := by
  have hnone : f.matching m peer (m.disks peer) = [] := by simpa [DiskFilter.hits] using hmiss
  by_cases hstop : v.zfsMachines.length = m.systems.length
  · rw [addLocalFilters_stopped hstop, addLocalFilters_stopped hstop]
  · conv_lhs => unfold addLocalFilters
    rw [if_neg hstop, hnone]

theorem addLocalFilters_hit (hhit : f.hits m peer = true)
    (hgo : v.zfsMachines.length ≠ m.systems.length) :
    addLocalFilters m peer (f :: filters) v = addLocalFilters m peer filters (v.after m peer [f]) := by
  have hsome : f.matching m peer (m.disks peer) ≠ [] := by simpa [DiskFilter.hits] using hhit
  obtain ⟨disk, rest, hmatch⟩ := exists_cons_of_ne_nil hsome
  conv_lhs => unfold addLocalFilters
  rw [if_neg hgo, hmatch]
  have hpath : firstPath m peer f = formatDiskPath disk := by
    unfold firstPath
    rw [hmatch]
    rfl
  unfold LocalFiltering.after addHit
  simp [hpath]

theorem addLocalFilters_again (hpeer : peer ∈ v.zfsMachines)
    (hgo : v.zfsMachines.length ≠ m.systems.length) :
    addLocalFilters m peer filters v = v.after m peer (filters.filter (·.hits m peer)) := by
  induction filters generalizing v with
  | nil => simp [addLocalFilters, LocalFiltering.after]
  | cons f filters ih =>
    cases hhit : f.hits m peer with
    | false => rw [addLocalFilters_miss hhit, ih hpeer hgo, filter_cons_of_neg (by simp [hhit])]
    | true =>
      have hmachines : (v.after m peer [f]).zfsMachines = v.zfsMachines := by
        unfold LocalFiltering.after
        simp [hpeer]
      rw [addLocalFilters_hit hhit hgo, ih (by rwa [hmachines]) (by rwa [hmachines]),
        filter_cons_of_pos hhit]
      unfold LocalFiltering.after
      simp [hpeer]

theorem addLocalFilters_eq (hpeer : peer ∉ v.zfsMachines)
    (hgo : v.zfsMachines.length < m.systems.length) :
    addLocalFilters m peer filters v = v.after m peer
      (if v.zfsMachines.length + 1 = m.systems.length then (filters.filter (·.hits m peer)).take 1
      else filters.filter (·.hits m peer)) := by
  induction filters with
  | nil =>
    unfold addLocalFilters LocalFiltering.after
    simp
  | cons f filters ih =>
    cases hhit : f.hits m peer with
    | false => rw [addLocalFilters_miss hhit, ih, filter_cons_of_neg (by simp [hhit])]
    | true =>
      have hmachines : (v.after m peer [f]).zfsMachines = v.zfsMachines ++ [peer] := by
        unfold LocalFiltering.after
        simp [hpeer]
      rw [addLocalFilters_hit hhit (by omega), filter_cons_of_pos hhit]
      split_ifs with hlast
      · rw [addLocalFilters_stopped (by rw [hmachines, length_append]; exact hlast)]
        rfl
      · rw [addLocalFilters_again (by simp [hmachines])
          (by rw [hmachines, length_append]; exact hlast)]
        unfold LocalFiltering.after
        simp [hpeer]

def localHits (p : Preseed) (m : Machines) (peer : String) : List DiskFilter :=
  if peer ∈ p.checkFilterZFS then p.storage.localDisks.filter (·.hits m peer) else []

def Stops (p : Preseed) (m : Machines) : Prop :=
  (filteredZFS p m).length = m.systems.length ∧ ∀ peer ∈ filteredZFS p m, localHits p m peer ≠ []

instance (p : Preseed) (m : Machines) : Decidable (Stops p m) := inferInstanceAs (Decidable (_ ∧ _))

def applied (p : Preseed) (m : Machines) (last : Option String) (peer : String) : List DiskFilter :=
  if Stops p m ∧ last = some peer then (localHits p m peer).take 1 else localHits p m peer

theorem applied_eq_nil : applied p m last peer = [] ↔ localHits p m peer = [] := by
  unfold applied
  split_ifs
  · cases localHits p m peer with
    | nil => simp
    | cons f filters => simp
  · exact Iff.rfl

theorem applied_at {done rest : List String} (hperm : (done ++ peer :: rest).Perm (filteredZFS p m)) :
    applied p m (done ++ peer :: rest).getLast? peer =
      if (done.filter fun k => localHits p m k ≠ []).length + 1 = m.systems.length then
        (localHits p m peer).take 1
      else localHits p m peer := by
  have hnodup : (done ++ peer :: rest).Nodup := hperm.nodup_iff.mpr (m.nodup.filter _)
  have hlength : done.length + (rest.length + 1) = (filteredZFS p m).length := by
    rw [← hperm.length_eq, length_append, length_cons]
  have hle : (filteredZFS p m).length ≤ m.systems.length := length_filter_le _ _
  have hdone := length_filter_le (fun k => decide (localHits p m k ≠ [])) done
  unfold applied
  by_cases hnone : localHits p m peer = []
  · rw [hnone]
    simp
  · by_cases hlast : (done.filter fun k => localHits p m k ≠ []).length + 1 = m.systems.length
    · have hrest : rest = [] := length_eq_zero_iff.mp (by omega)
      have hall : (done.filter fun k => localHits p m k ≠ []).length = done.length := by omega
      rw [hrest] at hperm ⊢
      rw [if_pos hlast, if_pos]
      refine ⟨⟨by omega, fun k hk => ?_⟩, List.getLast?_concat⟩
      rcases mem_append.mp (hperm.mem_iff.mpr hk) with hk | hk
      · have hk' := length_filter_eq_length_iff.mp hall k hk
        exact of_decide_eq_true hk'
      · rw [mem_singleton.mp hk]
        exact hnone
    · rw [if_neg hlast, if_neg]
      rintro ⟨⟨hsystems, hall⟩, hpeer⟩
      have hrest : rest = [] := by
        by_contra hrest
        rw [List.getLast?_append_cons, List.getLast?_cons_of_ne_nil hrest] at hpeer
        have hmem := mem_of_getLast? hpeer
        exact (nodup_cons.mp (nodup_append'.mp hnodup).2.1).1 hmem
      have hfilter : done.filter (fun k => localHits p m k ≠ []) = done := by
        rw [filter_eq_self]
        exact fun k hk => decide_eq_true (hall k (hperm.mem_iff.mp (mem_append_left _ hk)))
      rw [hfilter] at hlast
      rw [hrest, length_nil] at hlength
      omega

def zfsSystem (p : Preseed) (m : Machines) (last : Option String) (peer : String)
    (system : InitSystem) : InitSystem :=
  (applied p m last peer).foldl (addHit m peer) system

theorem foldl_addZFS {done rest : List String} (hperm : (done ++ rest).Perm (filteredZFS p m))
    (a b : ℕ) (ceph zfs : OrdMap String ℕ) :
    rest.foldl (addZFS p m) ⟨table m.systems F, a, b, ceph, zfs,
      done.filter fun k => localHits p m k ≠ []⟩ = ⟨table m.systems fun peer =>
          if peer ∈ rest then zfsSystem p m (done ++ rest).getLast? peer (F peer) else F peer, a, b, ceph,
        (rest.flatMap fun peer =>
          (applied p m (done ++ rest).getLast? peer).map (·.find)).foldl increment zfs,
        (done ++ rest).filter fun k => localHits p m k ≠ []⟩ := by
  induction rest generalizing done F zfs with
  | nil => simp
  | cons peer rest ih =>
    have hnodup : (done ++ peer :: rest).Nodup := hperm.nodup_iff.mpr (m.nodup.filter _)
    have hmem : peer ∈ filteredZFS p m := hperm.mem_iff.mp (mem_append_right _ mem_cons_self)
    obtain ⟨hpeer, hfiltered⟩ := mem_filter.mp hmem
    have hlength := hperm.length_eq
    have hle : (filteredZFS p m).length ≤ m.systems.length := length_filter_le _ _
    have hdone := length_filter_le (fun k => decide (localHits p m k ≠ [])) done
    rw [length_append, length_cons] at hlength
    have hfresh : peer ∉ done.filter fun k => localHits p m k ≠ [] := fun h =>
      (nodup_append'.mp hnodup).2.2 (mem_filter.mp h).1 mem_cons_self
    have hhits : p.storage.localDisks.filter (·.hits m peer) = localHits p m peer :=
      (if_pos (of_decide_eq_true hfiltered)).symm
    have hstep : addZFS p m ⟨table m.systems F, a, b, ceph, zfs,
        done.filter fun k => localHits p m k ≠ []⟩ peer = ⟨table m.systems (Function.update F peer
            (zfsSystem p m (done ++ peer :: rest).getLast? peer (F peer))), a, b, ceph,
          ((applied p m (done ++ peer :: rest).getLast? peer).map (·.find)).foldl increment zfs,
          (done ++ [peer]).filter fun k => localHits p m k ≠ []⟩ := by
      unfold addZFS
      simp only [get_table hpeer, Option.getD_some]
      rw [addLocalFilters_eq hfresh (by dsimp only; omega), hhits, ← applied_at hperm, set_table hpeer]
      unfold LocalFiltering.after zfsSystem
      congr 1
      rw [filter_append]
      by_cases hnone : localHits p m peer = []
      · rw [if_pos (.inl (applied_eq_nil.mpr hnone))]
        simp [hnone]
      · rw [if_neg (not_or.mpr ⟨fun h => hnone (applied_eq_nil.mp h), hfresh⟩)]
        simp [hnone]
    have hperm' : ((done ++ [peer]) ++ rest).Perm (filteredZFS p m) := by simpa using hperm
    rw [foldl_cons, hstep, ih hperm', append_assoc, singleton_append, flatMap_cons, foldl_append]
    rw [update_rest (zfsSystem p m (done ++ peer :: rest).getLast?) F
      (nodup_cons.mp (nodup_append'.mp hnodup).2.1).1]

/-! ### The outcome -/

section

variable (p : Preseed) (m : Machines) (last : Option String)

def cephFinds : List String :=
  (filteredCeph p m).flatMap fun peer => (cephPicks p m peer).map fun pick => pick.1.find

def zfsFinds : List String := (filteredZFS p m).flatMap fun peer => (applied p m last peer).map (·.find)

def machinesFound : ℕ :=
  ((filteredZFS p m).filter fun peer => localHits p m peer ≠ []).length + m.systems.countP (givesLocal p)

def hasCeph : Bool := cephFinds p m ≠ [] || 0 < m.systems.countP (givesCeph p)

def foundSystem (peer : String) : InitSystem :=
  withSharedPools p m (hasCeph p m) peer
    (zfsSystem p m last peer (cephSystem p m peer (directSystem p m peer .empty)))

def verdict : Except String Unit := do
  p.checkFilters
  checkMatches p m (fun find => (cephFinds p m).count find)
    (fun find => (zfsFinds p m last).count find) (machinesFound p m)

end

theorem cephSystem_of_not_filtered (h : peer ∉ p.checkFilterCeph) : cephSystem p m peer system = system := by
  have hnone : cephPicks p m peer = [] := if_neg h
  exact if_pos hnone

theorem zfsSystem_of_not_filtered (h : peer ∉ p.checkFilterZFS) : zfsSystem p m last peer system =
    system := by
  have hnone : applied p m last peer = [] := applied_eq_nil.mpr (if_neg h)
  unfold zfsSystem
  rw [hnone]
  rfl

theorem loops_eq (ho : o.Possible p m) :
    o.zfs.foldl (addZFS p m) (o.ceph.foldl (addCeph p m) (o.direct.foldl (addDirect p m) m.start)) =
      ⟨table m.systems fun peer =>
          zfsSystem p m o.zfs.getLast? peer (cephSystem p m peer (directSystem p m peer .empty)),
        o.direct.countP (givesCeph p), o.direct.countP (givesLocal p),
        (o.ceph.flatMap fun peer => (cephPicks p m peer).map fun pick => pick.1.find).foldl increment [],
        (o.zfs.flatMap fun peer => (applied p m o.zfs.getLast? peer).map (·.find)).foldl increment [],
        o.zfs.filter fun k => localHits p m k ≠ []⟩ := by
  have hceph : ∀ peer ∈ o.ceph, peer ∈ m.systems ∧ peer ∈ p.checkFilterCeph := by
    intro peer hpeer
    obtain ⟨hsystem, hfiltered⟩ := mem_filter.mp (ho.ceph.mem_iff.mp hpeer)
    exact ⟨hsystem, of_decide_eq_true hfiltered⟩
  unfold Machines.start
  rw [show (m.systems.map fun peer => (peer, InitSystem.empty)) = table m.systems fun _ => .empty from rfl,
    foldl_addDirect (ho.direct.nodup_iff.mpr m.nodup) (fun peer h => ho.direct.mem_iff.mp h) fun _ _ => rfl,
    foldl_addCeph (ho.ceph.nodup_iff.mpr (m.nodup.filter _)) hceph]
  have hzfs : ([] ++ o.zfs).Perm (filteredZFS p m) := ho.zfs
  refine (foldl_addZFS hzfs _ _ _ _).trans ?_
  rw [nil_append, Nat.zero_add, Nat.zero_add]
  congr 1
  refine table_congr fun peer hpeer => ?_
  rw [if_pos (ho.direct.mem_iff.mpr hpeer)]
  have hcephed : (if peer ∈ o.ceph then cephSystem p m peer (directSystem p m peer .empty)
      else directSystem p m peer .empty) = cephSystem p m peer (directSystem p m peer .empty) := by
    split_ifs with hin
    · rfl
    · refine (cephSystem_of_not_filtered fun hfiltered => hin ?_).symm
      exact ho.ceph.mem_iff.mpr (mem_filter.mpr ⟨hpeer, decide_eq_true hfiltered⟩)
  rw [hcephed]
  split_ifs with hin
  · rfl
  · refine (zfsSystem_of_not_filtered fun hfiltered => hin ?_).symm
    exact ho.zfs.mem_iff.mpr (mem_filter.mpr ⟨hpeer, decide_eq_true hfiltered⟩)

theorem parse_eq (ho : o.Possible p m) :
    p.parse m o = (verdict p m o.zfs.getLast?).map fun _ =>
      table m.systems (foundSystem p m o.zfs.getLast?) := by
  have hcephFinds : ∀ find, ((((o.ceph.flatMap fun peer => (cephPicks p m peer).map fun pick =>
      pick.1.find).foldl increment []).get find).getD 0) = (cephFinds p m).count find := by
    intro find
    rw [get_foldl_increment]
    exact (Nat.zero_add _).trans ((ho.ceph.flatMap_right _).count_eq find)
  have hzfsFinds : ∀ find, ((((o.zfs.flatMap fun peer => (applied p m o.zfs.getLast? peer).map
      (·.find)).foldl increment []).get find).getD 0) = (zfsFinds p m o.zfs.getLast?).count find := by
    intro find
    rw [get_foldl_increment]
    exact (Nat.zero_add _).trans ((ho.zfs.flatMap_right _).count_eq find)
  have hmachines : (o.zfs.filter fun k => localHits p m k ≠ []).length + o.direct.countP (givesLocal p) =
      machinesFound p m := by
    unfold machinesFound
    rw [(ho.zfs.filter _).length_eq, ho.direct.countP_eq]
  have hhas : decide (0 < ((o.ceph.flatMap fun peer => (cephPicks p m peer).map fun pick =>
      pick.1.find).foldl increment []).length + o.direct.countP (givesCeph p)) = hasCeph p m := by
    have hnil : (o.ceph.flatMap fun peer => (cephPicks p m peer).map fun pick => pick.1.find) = [] ↔
        cephFinds p m = [] := by
      rw [← length_eq_zero_iff, (ho.ceph.flatMap_right _).length_eq, length_eq_zero_iff]
      exact Iff.rfl
    unfold hasCeph
    rw [← ho.direct.countP_eq, Bool.eq_iff_iff, decide_eq_true_eq, Bool.or_eq_true, decide_eq_true_eq,
      decide_eq_true_eq, Nat.add_pos_iff_pos_or_pos, length_foldl_increment, Ne, hnil]
    simp
  unfold Preseed.parse verdict
  cases p.checkFilters with
  | error e => rfl
  | ok u =>
    dsimp only [bind, Except.bind]
    rw [loops_eq ho]
    simp only [hcephFinds, hzfsFinds, hmachines, hhas]
    cases checkMatches p m (fun find => (cephFinds p m).count find)
        (fun find => (zfsFinds p m o.zfs.getLast?).count find) (machinesFound p m) with
    | error e => rfl
    | ok u =>
      refine congrArg Except.ok ?_
      unfold table
      rw [map_map]
      rfl

theorem parse_ok_iff (ho : o.Possible p m) {r : OrdMap String InitSystem} : p.parse m o = .ok r ↔
    verdict p m o.zfs.getLast? = .ok () ∧ r = table m.systems (foundSystem p m o.zfs.getLast?) := by
  rw [parse_eq ho]
  cases verdict p m o.zfs.getLast? with
  | error e => exact iff_of_false (fun h => (nomatch h)) fun h => (nomatch h.1)
  | ok u => exact ⟨fun h => ⟨rfl, (Except.ok.inj h).symm⟩, fun h => h.2 ▸ rfl⟩

end IncusCloud.Firecloud
