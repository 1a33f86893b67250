import IncusCloud.Firecloud.Proofs.SharedPool

/-!
# One pool for each disk

The local pool, Ceph and clustered LVM never share a disk; what goes wrong is a loop file that was
offered for the local pool: it stands in the map of the system's disks, and Ceph can get it.

Ceph's disks are wiped as the operator chose. Of the local pool every disk that is selected is
wiped, so that the two agree exactly where the operator chose all of them.
-/

open List

namespace IncusCloud.Firecloud

open Lib

variable {site : Site} {state : OrdMap String SystemInformation} {m path : String} {row : Row}
    {rows : List Row}
  {selected : OrdMap String String} {systems asks : List String} {c : InitConfig} {l : Asking} {asked : Asked}
  {tries : ℕ} {os : List Reply}

instance (rows : List Row) (m path : String) : Decidable (Row.at? rows m path) :=
  inferInstanceAs (Decidable (∃ row ∈ rows, row.location = m ∧ row.path = path))

def WipesChosen (c : InitConfig) (asked : Asked) : Prop :=
  ∀ e ∈ c.systems,
    (∀ d ∈ e.2.localDisks, d.2 = true ↔ Row.at? (asked.wiped .localPool) e.1 d.1) ∧
      ∀ d ∈ e.2.microCephDisks, d.wipe = true ↔ Row.at? (asked.wiped .remotePool) e.1 d.path

instance (c : InitConfig) (asked : Asked) : Decidable (WipesChosen c asked) :=
  inferInstanceAs (Decidable (∀ e ∈ c.systems, _ ∧ _))

def WipesAll (systems : List String) (asked : Asked) : Prop :=
  ∀ row ∈ asked.chosen .localPool, row.type ≠ diskTypeLoop → row.location ∈ systems →
    Row.at? (asked.wiped .localPool) row.location row.path

instance (systems : List String) (asked : Asked) : Decidable (WipesAll systems asked) :=
  inferInstanceAs (Decidable (∀ row ∈ asked.chosen .localPool, _))

theorem exists_of_result {p : Asking → Asked → Prop} [∀ l asked, Decidable (p l asked)]
    {r : Option ((Except WizardError Unit × Asking) × Asked)}
    (h : r.any (fun r => r.1.1.toBool && decide (p r.1.2 r.2)) = true) :
    ∃ l asked, r = some ((.ok (), l), asked) ∧ p l asked := by
  obtain ⟨⟨⟨answer, l⟩, asked⟩, hr, hp⟩ := (Option.any_eq_true _ _).mp h
  obtain ⟨hok, hp⟩ := Bool.and_eq_true_iff.mp hp
  cases answer with
  | error e => cases hok
  | ok u => exact ⟨l, asked, hr, of_decide_eq_true hp⟩

theorem mem_plannedDisk {d : String × Bool} :
    d ∈ plannedDisk site selected m ↔ selected.get m = some d.1 ∧ localLoopSize d.1 = none ∧
      d.2 = site.extensions "storage_pool_source_wipe" := by
  unfold plannedDisk
  cases selected.get m with
  | none => simp
  | some path =>
    dsimp only
    constructor
    · intro hd
      split_ifs at hd with hloop
      · cases hd
      · rw [mem_singleton.mp hd]
        exact ⟨rfl, Option.not_isSome_iff_eq_none.mp hloop, rfl⟩
    · rintro ⟨hpath, hloop, hwipe⟩
      obtain rfl := Option.some.inj hpath
      rw [if_neg (by simp [hloop]), ← hwipe]
      exact mem_singleton_self _

/-- On a server that can wipe a source, the wizard wipes what the operator chose exactly where every
disk for the local pool was chosen. -/
theorem wipesChosen_iff_wipesAll (hreal : RealDisks state)
    (hwipe : site.extensions "storage_pool_source_wipe" = true)
    (hres : (askDisks site tries (Asking.start systems state)).result (operator site) .nothing os =
      some ((.ok (), l), asked)) :
    WipesChosen l.config asked ↔ WipesAll systems asked := by
  obtain ⟨selected, asks, hdone⟩ := askDisks_spec hreal hres
  constructor
  · intro hchosen row hrow htype hlocation
    obtain ⟨e, he, hm⟩ := List.mem_map.mp (hdone.keys _ hlocation)
    rw [← hm] at hlocation
    have hplanned := (hdone.systems e he hlocation).localDisks
    obtain ⟨disk, -, hpath⟩ := hdone.rows.device row hrow htype
    have hmem : (row.path, true) ∈ e.2.localDisks := by
      rw [hplanned, mem_plannedDisk, hm, hwipe]
      refine ⟨(hdone.chosen _ _).mpr ⟨row, hrow, rfl, rfl⟩, ?_, rfl⟩
      rw [hpath]
      exact localLoopSize_formatDiskPath disk
    rw [← hm]
    exact ((hchosen e he).1 _ hmem).mp rfl
  · intro hall e he
    by_cases hm : e.1 ∈ systems
    · have hplanned := hdone.systems e he hm
      refine ⟨fun d hd => ?_, hplanned.wipes⟩
      rw [hplanned.localDisks, mem_plannedDisk, hwipe] at hd
      obtain ⟨hselected, hloop, hd⟩ := hd
      obtain ⟨row, hrow, hlocation, hpath⟩ := (hdone.chosen _ _).mp hselected
      have htype : row.type ≠ diskTypeLoop := by
        intro htype
        have hsize := hdone.rows.loop row hrow htype
        rw [hpath, hloop] at hsize
        cases hsize
      have hwiped := hall row hrow htype (by rwa [hlocation])
      rw [hlocation, hpath] at hwiped
      exact iff_of_true hd hwiped
    · obtain ⟨hlocal, hceph, -⟩ := hdone.others e he hm
      rw [hlocal, hceph]
      exact ⟨fun _ hd => (nomatch hd), fun _ hd => (nomatch hd)⟩

section

def wipingSite : Site := ⟨"a", false, fun _ => true⟩

def oneDisk : OrdMap String SystemInformation :=
  [("a", ⟨[("sda", ⟨"sda", "scsi", "", ""⟩)], none, none, none, [], false⟩)]

theorem realDisks_oneDisk : RealDisks oneDisk := by
  rintro m disk ⟨e, he, -, d, hd, rfl⟩
  rw [mem_singleton.mp he] at hd
  rw [mem_singleton.mp hd]
  decide

/-- Local storage, no loop file, the disk, and what to wipe. -/
def answers (wipes : List ℕ) : List Reply := [{}, {}, {}, { picks := [0] }, { picks := wipes }]

theorem a_chosen_disk_is_wiped : ∃ l asked,
    (askDisks wipingSite 1 (Asking.start ["a"] oneDisk)).result (operator wipingSite) .nothing (answers [0]) =
      some ((.ok (), l), asked) ∧ WipesChosen l.config asked := by
  obtain ⟨l, asked, hres, hall⟩ := exists_of_result (p := fun _ asked => WipesAll ["a"] asked)
    (r := (askDisks wipingSite 1 (Asking.start ["a"] oneDisk)).result (operator wipingSite)
      .nothing (answers [0]))
    (by decide)
  exact ⟨l, asked, hres, (wipesChosen_iff_wipesAll realDisks_oneDisk rfl hres).mpr hall⟩

/-- The operator chose a disk and nothing to wipe: it is wiped. -/
theorem a_disk_is_wiped_unasked : ∃ l asked,
    (askDisks wipingSite 1 (Asking.start ["a"] oneDisk)).result (operator wipingSite) .nothing (answers []) =
      some ((.ok (), l), asked) ∧ ¬ WipesChosen l.config asked :=
  exists_of_result (p := fun l asked => ¬ WipesChosen l.config asked) (by decide)

end

/-! ### The pools of a disk -/

variable {site : Site} {state : OrdMap String SystemInformation} {m path : String} {row : Row}
    {rows : List Row}
  {selected : OrdMap String String} {systems asks : List String} {c : InitConfig} {l : Asking}
    {asked w : Asked}
  {tries : ℕ} {os : List Reply} {e : String × InitSystem}

def InitSystem.paths (s : InitSystem) : List String :=
  s.localDisks.map (·.1) ++ s.microCephDisks.map (·.path) ++ s.lvmDisks

def CephPath (state : OrdMap String SystemInformation) (m path : String) : Prop :=
  ((∃ disk, IsDisk state m disk ∧ path = formatDiskPath disk) ∨ isLoopSpec path = true) ∧
    localLoopSize path = none

def OneUse (state : OrdMap String SystemInformation) (c : InitConfig) : Prop :=
  ∀ e ∈ c.systems, e.2.paths.Nodup ∧ ∀ d ∈ e.2.microCephDisks, CephPath state e.1 d.path

def OwnRows (systems : List String) (asked : Asked) : Prop :=
  ∀ m ∈ systems,
    (((asked.chosen .remotePool).filter fun row => row.location = m).map (·.path)).Nodup ∧
      ∀ row ∈ asked.chosen .remotePool, row.location = m → row.type = diskTypeLoop →
        isLoopSpec row.path = true

instance (systems : List String) (asked : Asked) : Decidable (OwnRows systems asked) :=
  inferInstanceAs (Decidable (∀ m ∈ systems, _ ∧ _))

section

variable (h : Planned site selected w e) (hceph : CephRows state selected asks (w.chosen .remotePool))

include h

theorem Planned.mem_paths : path ∈ e.2.microCephDisks.map (·.path) ↔
    Row.at? (w.chosen .remotePool) e.1 path := by
  rw [h.paths, List.mem_map]
  refine exists_congr fun row => ?_
  rw [mem_filter, decide_eq_true_eq, and_assoc]

include hceph

theorem Planned.disjoint (hrows : LocalRows state (w.chosen .localPool))
    (hchosen : ∀ m path, selected.get m = some path ↔ Row.at? (w.chosen .localPool) m path) :
    ∀ path ∈ e.2.localDisks.map (·.1), path ∉ e.2.microCephDisks.map (·.path) := by
  intro path hlocal hmem
  obtain ⟨d, hd, rfl⟩ := List.mem_map.mp hlocal
  rw [h.localDisks, mem_plannedDisk] at hd
  obtain ⟨hselected, hloop, -⟩ := hd
  obtain ⟨row, hrow, hlocation, hpath⟩ := h.mem_paths.mp hmem
  by_cases htype : row.type = diskTypeLoop
  · -- A loop file has no path of a disk, and the local pool's is one.
    obtain ⟨row', hrow', -, hpath'⟩ := (hchosen _ _).mp hselected
    have hdevice : row'.type ≠ diskTypeLoop := by
      intro htype'
      have hsize := hrows.loop row' hrow' htype'
      rw [hpath', hloop] at hsize
      cases hsize
    obtain ⟨disk, -, hdisk⟩ := hrows.device row' hrow' hdevice
    have hhead := hceph.loop row hrow htype
    rw [hpath, ← hpath', hdisk, head_formatDiskPath] at hhead
    cases hhead
  · obtain ⟨disk, -, -, hother⟩ := hceph.device row hrow htype
    rw [hlocation, hpath] at hother
    exact hother hselected

theorem Planned.cephPath (hloops : ∀ row ∈ w.chosen .remotePool, row.location = e.1 →
    row.type = diskTypeLoop →
    isLoopSpec row.path = true) : ∀ d ∈ e.2.microCephDisks, CephPath state e.1 d.path := by
  intro d hd
  obtain ⟨row, hrow, hlocation, hpath⟩ := h.mem_paths.mp (mem_map_of_mem (f := (·.path)) hd)
  rw [← hpath]
  by_cases htype : row.type = diskTypeLoop
  · have hspec := hloops row hrow hlocation htype
    exact ⟨.inr hspec, localLoopSize_of_isLoopSpec hspec⟩
  · obtain ⟨disk, hdisk, hdiskPath, -⟩ := hceph.device row hrow htype
    rw [hlocation] at hdisk
    refine ⟨.inl ⟨disk, hdisk, hdiskPath⟩, ?_⟩
    rw [hdiskPath]
    exact localLoopSize_formatDiskPath disk

end

theorem Planned.nodup_paths (h : Planned site selected w e) (hdisjoint : ∀ path ∈ e.2.localDisks.map (·.1),
    path ∉ e.2.microCephDisks.map (·.path)) (hnodup : (e.2.microCephDisks.map (·.path)).Nodup) :
    e.2.paths.Nodup := by
  have hlocal : (e.2.localDisks.map (·.1)).Nodup := by
    rw [h.localDisks]
    unfold plannedDisk
    cases selected.get e.1 with
    | none => exact nodup_nil
    | some path =>
      dsimp only
      split_ifs
      · exact nodup_nil
      · exact nodup_singleton path
  have hboth : (e.2.localDisks.map (·.1) ++ e.2.microCephDisks.map (·.path)).Nodup :=
    nodup_append'.mpr ⟨hlocal, hnodup, fun path hpath hpath' => hdisjoint path hpath hpath'⟩
  unfold InitSystem.paths
  rcases h.lvm with hnone | ⟨lvm, hlvm, hceph, hother⟩
  · rw [hnone, append_nil]
    exact hboth
  · rw [hlvm]
    refine nodup_append'.mpr ⟨hboth, nodup_singleton lvm, fun path hpath hpath' => ?_⟩
    rw [mem_singleton.mp hpath', hceph] at hpath
    rw [map_nil, append_nil, List.mem_map] at hpath
    obtain ⟨d, hd, hsame⟩ := hpath
    rw [h.localDisks, mem_plannedDisk] at hd
    rw [hsame] at hd
    exact hother hd.1

/-- The wizard gives each disk to one pool exactly where the operator selects no disk twice for Ceph
and no loop file that was meant for the local pool. -/
theorem oneUse_iff_ownRows (hreal : RealDisks state)
    (hres : (askDisks site tries (Asking.start systems state)).result (operator site) .nothing os =
      some ((.ok (), l), asked)) :
    OneUse state l.config ↔ OwnRows systems asked := by
  obtain ⟨selected, asks, hdone⟩ := askDisks_spec hreal hres
  constructor
  · intro hone m hm
    obtain ⟨e, he, rfl⟩ := List.mem_map.mp (hdone.keys m hm)
    have hplanned := hdone.systems e he hm
    obtain ⟨hnodup, hpaths⟩ := hone e he
    refine ⟨?_, fun row hrow hlocation htype => ?_⟩
    · rw [← hplanned.paths]
      exact (nodup_append'.mp (nodup_append'.mp hnodup).1).2.1
    · obtain ⟨d, hd, hpath⟩ := List.mem_map.mp (hplanned.mem_paths.mpr ⟨row, hrow, hlocation, rfl⟩)
      obtain ⟨⟨disk, -, hdisk⟩ | hspec, -⟩ := hpaths d hd
      · have hhead := hdone.ceph.loop row hrow htype
        rw [← hpath, hdisk, head_formatDiskPath] at hhead
        cases hhead
      · rw [← hpath]
        exact hspec
  · intro hown e he
    by_cases hm : e.1 ∈ systems
    · have hplanned := hdone.systems e he hm
      obtain ⟨hnodup, hloops⟩ := hown e.1 hm
      rw [← hplanned.paths] at hnodup
      exact ⟨hplanned.nodup_paths (hplanned.disjoint hdone.ceph hdone.rows hdone.chosen) hnodup,
        hplanned.cephPath hdone.ceph hloops⟩
    · obtain ⟨hlocal, hceph, hlvm⟩ := hdone.others e he hm
      unfold InitSystem.paths
      rw [hlocal, hceph, hlvm]
      exact ⟨nodup_nil, fun _ hd => (nomatch hd)⟩

section

def cephSite : Site := ⟨"a", true, fun _ => true⟩

/-- The disk for the local pool, beside a loop file of the given size; then Ceph's table, on from
its warning. -/
def loopAnswers (localGiB cephGiB : ℕ) : List Reply :=
  [{}, { sizeGiB := localGiB }, {}, { picks := [0] }, {}, {}, { sizeGiB := cephGiB },
    { picks := [0] }, { yes := false }, {}, {}, {}, {}, {}, {}]

theorem a_ceph_loop_is_one_use : ∃ l asked,
    (askDisks cephSite 1 (Asking.start ["a"] oneDisk)).result (operator cephSite) .nothing (loopAnswers 0 5) =
      some ((.ok (), l), asked) ∧ OneUse oneDisk l.config := by
  obtain ⟨l, asked, hres, hown⟩ := exists_of_result (p := fun _ asked => OwnRows ["a"] asked)
    (r := (askDisks cephSite 1 (Asking.start ["a"] oneDisk)).result (operator cephSite)
      .nothing (loopAnswers 0 5))
    (by decide)
  exact ⟨l, asked, hres, (oneUse_iff_ownRows realDisks_oneDisk hres).mpr hown⟩

/-- A loop file that was offered for the local pool becomes a disk of Ceph. -/
theorem a_local_loop_goes_to_ceph : ∃ l asked,
    (askDisks cephSite 1 (Asking.start ["a"] oneDisk)).result (operator cephSite) .nothing (loopAnswers 5 0) =
      some ((.ok (), l), asked) ∧ ¬ OneUse oneDisk l.config := by
  obtain ⟨l, asked, hres, hlocal⟩ := exists_of_result
    (p := fun l _ => ∃ e ∈ l.config.systems, ∃ d ∈ e.2.microCephDisks, (localLoopSize d.path).isSome = true)
    (r := (askDisks cephSite 1 (Asking.start ["a"] oneDisk)).result (operator cephSite)
      .nothing (loopAnswers 5 0))
    (by decide)
  refine ⟨l, asked, hres, fun hone => ?_⟩
  obtain ⟨e, he, d, hd, hsize⟩ := hlocal
  rw [((hone e he).2 d hd).2] at hsize
  cases hsize

end

end IncusCloud.Firecloud
