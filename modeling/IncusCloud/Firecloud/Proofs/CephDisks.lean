import IncusCloud.Firecloud.Proofs.Wizard

/-!
# Ceph's disks

What is chosen for Ceph is planned as it was chosen, and wiped as it was chosen
(`wp_askRemotePool`). The rows of its table are what the local pool left, and loop files: of
MicroCeph, and of the local pool where an earlier question put one into the map of a system's disks.

What is planned of a pool says nothing about the disks of another.
-/

open List

namespace IncusCloud.Firecloud

open Lib
open Function (update update_self)

variable {s s' : InitSystem} {pools : List StoragePoolsPost} {keys : List ClusterMemberConfigKey}

theorem localDisks_append (hpools : ∀ pool ∈ pools, pool.name ≠ defaultZFSPool)
    (hkeys : ∀ k ∈ keys, k.name ≠ defaultZFSPool)
    (htarget : s'.targetStoragePools = s.targetStoragePools ++ pools)
    (hjoin : s'.joinConfig = s.joinConfig ++ keys) : s'.localDisks = s.localDisks := by
  have hnone : pools.filterMap InitSystem.localDisk = [] := by
    rw [filterMap_eq_nil_iff]
    exact fun pool hpool => if_neg (hpools pool hpool)
  have hsource : keys.filter (fun k => k.name = defaultZFSPool && k.key = "source") = [] := by
    rw [filter_eq_nil_iff]
    intro k hk
    simp [hkeys k hk]
  have hwipe : keys.any (fun k =>
    k.name = defaultZFSPool && k.key = "source.wipe" && k.value = "true") = false := by
    rw [any_eq_false]
    intro k hk
    simp [hkeys k hk]
  unfold InitSystem.localDisks
  rw [htarget, hjoin, filterMap_append, hnone, append_nil, filter_append, hsource, append_nil,
    any_append, hwipe, Bool.or_false]

theorem localDisks_joined (hkeys : ∀ k ∈ keys, k.name ≠ defaultZFSPool)
    (htarget : s'.targetStoragePools = s.targetStoragePools) (hjoin : s'.joinConfig = s.joinConfig ++ keys) :
    s'.localDisks = s.localDisks :=
  localDisks_append (forall_mem_nil _) hkeys (htarget.trans (append_nil _).symm) hjoin

theorem localDisks_targeted (hpools : ∀ pool ∈ pools, pool.name ≠ defaultZFSPool)
    (htarget : s'.targetStoragePools = s.targetStoragePools ++ pools) (hjoin : s'.joinConfig = s.joinConfig) :
    s'.localDisks = s.localDisks :=
  localDisks_append hpools (forall_mem_nil _) htarget (hjoin.trans (append_nil _).symm)

theorem lvmDisks_append (hpools : ∀ pool ∈ pools, pool.driver ≠ "lvmcluster")
    (htarget : s'.targetStoragePools = s.targetStoragePools ++ pools) : s'.lvmDisks = s.lvmDisks := by
  have hnone : pools.filter (fun pool => pool.driver = "lvmcluster") = [] := by
    rw [filter_eq_nil_iff]
    intro pool hpool
    simp [hpools pool hpool]
  unfold InitSystem.lvmDisks
  rw [htarget, filter_append, hnone, append_nil]

/-! ### The questions about Ceph -/

open Lib Handler

variable {site : Site} {l : Asking} {w : Asked} {state : OrdMap String SystemInformation} {m path : String}
  {row : Row} {rows : List Row} {selected : OrdMap String String} {luns : List Disk}
    {names asks : List String}
  {c : InitConfig}

/-! ### Rows -/

structure CephRows (state : OrdMap String SystemInformation) (selected : OrdMap String String)
    (asks : List String) (rows : List Row) : Prop where
  asked : ∀ row ∈ rows, row.location ∈ asks
  loop : ∀ row ∈ rows, row.type = diskTypeLoop → row.path.toList.head? = some 'l'
  device : ∀ row ∈ rows, row.type ≠ diskTypeLoop → ∃ disk, IsDisk state row.location disk ∧
    row.path = formatDiskPath disk ∧ selected.get row.location ≠ some row.path

theorem CephRows.mono {rows' : List Row} (h : CephRows state selected asks rows)
    (hsub : ∀ row ∈ rows', row ∈ rows) : CephRows state selected asks rows' :=
  ⟨fun row hrow => h.asked row (hsub row hrow), fun row hrow => h.loop row (hsub row hrow),
    fun row hrow => h.device row (hsub row hrow)⟩

theorem cephRows_nil : CephRows state selected asks [] :=
  ⟨fun _ hrow => (nomatch hrow), fun _ hrow => (nomatch hrow), fun _ hrow => (nomatch hrow)⟩

def Devices (rows : List Row) : Prop := ∀ row ∈ rows, row.path.toList.head? = some '/'

theorem CephRows.devices (h : CephRows state selected asks rows) : Devices (deviceRows rows) := by
  intro row hrow
  obtain ⟨hrow, htype⟩ := mem_deviceRows.mp hrow
  obtain ⟨disk, -, hpath, -⟩ := h.device row hrow htype
  rw [hpath]
  exact head_formatDiskPath disk

theorem LocalSettled.of_chosen {w' : Asked} (h : LocalSettled state luns names selected c w)
    (hsame : w'.chosen .localPool = w.chosen .localPool) : LocalSettled state luns names selected c w' := by
  refine ⟨h.names, h.luns, h.keys, ?_, fun m path => ?_, h.left⟩
  · rw [hsame]
    exact h.rows
  · rw [hsame]
    exact h.chosen m path

theorem LocalDone.of_chosen {w' : Asked} (h : LocalDone site state luns names selected c w)
    (hsame : w'.chosen .localPool = w.chosen .localPool) : LocalDone site state luns names selected c w' :=
  ⟨h.toLocalSettled.of_chosen hsame, h.systems⟩

theorem LocalDone.select (h : LocalDone site state luns names selected c w) (rows : List Row) :
    LocalDone site state luns names selected c { w with chosen := update w.chosen .remotePool rows } :=
  h.of_chosen (Function.update_of_ne remotePool_ne.symm rows w.chosen)

theorem LocalDone.offer (h : LocalDone site state luns names selected c w) (asks : List String) (n : ℕ) :
    LocalDone site state luns names selected { c with state := offerCephLoops asks n c.state } w := by
  refine ⟨⟨h.names, h.luns, ?_, h.rows, h.chosen, fun e he d hd => ?_⟩, h.systems⟩
  · rw [← h.keys]
    show (offerCephLoops asks n c.state).map _ = _
    unfold offerCephLoops
    split_ifs
    · rw [map_map]
      refine map_congr_left fun e _ => ?_
      show (if _ then _ else _ : String × SystemInformation).1 = e.1
      split_ifs
      · rfl
      · rfl
    · rfl
  · replace he : e ∈ offerCephLoops asks n c.state := he
    unfold offerCephLoops at he
    split_ifs at he
    · obtain ⟨e₀, he₀, rfl⟩ := List.mem_map.mp he
      split_ifs at hd with hasked
      · rw [if_pos hasked]
        rcases OrdMap.mem_set hd with rfl | hd
        · exact .inl ⟨n, .inr rfl⟩
        · exact h.left e₀ he₀ d hd
      · rw [if_neg hasked]
        exact h.left e₀ he₀ d hd
    · exact h.left e he d hd

theorem cephRows_remoteDisks (h : LocalSettled state luns names selected c w) (asks : List String) :
    CephRows state selected asks (rowsOf (remoteDisks asks c.state)) := by
  have hrow : ∀ row ∈ rowsOf (remoteDisks asks c.state), row.location ∈ asks ∧ ∃ disk, row.type = disk.type ∧
      row.path = devicePath disk ∧ (IsLoop disk ∨ disk.type ≠ diskTypeLoop ∧ IsDisk state row.location disk ∧
        selected.get row.location ≠ some (formatDiskPath disk)) := by
    intro row hrow
    obtain ⟨e, he, d, hd, rfl⟩ := mem_rowsOf.mp hrow
    obtain ⟨e₀, he₀, rfl⟩ := List.mem_map.mp he
    obtain ⟨he₀, hasked⟩ := mem_filter.mp he₀
    exact ⟨of_decide_eq_true hasked, d.2, rfl, rfl, h.left e₀ he₀ d hd⟩
  refine ⟨fun row hmem => (hrow row hmem).1, fun row hmem htype => ?_, fun row hmem htype => ?_⟩
  · obtain ⟨-, disk, hsame, hpath, hloop | ⟨hdevice, -⟩⟩ := hrow row hmem
    · rw [hpath]
      exact head_of_isLoop hloop
    · exact absurd (hsame.symm.trans htype) hdevice
  · obtain ⟨-, disk, hsame, hpath, hloop | ⟨hdevice, hdisk, hother⟩⟩ := hrow row hmem
    · have hloopType : disk.type = diskTypeLoop := by
        obtain ⟨n, rfl | rfl⟩ := hloop
        · rfl
        · rfl
      exact absurd (hsame.trans hloopType) htype
    · rw [devicePath_of_device hdevice] at hpath
      rw [← hpath] at hother
      exact ⟨disk, hdisk, hpath, hother⟩

/-! ### Asking for Ceph's disks -/

/-- What the operator chose for Ceph stands in `selectedDisks` and `wipeDisks`. -/
structure CephChosen (state : OrdMap String SystemInformation) (selected : OrdMap String String)
    (asks : List String) (l : Asking) (w : Asked) : Prop where
  rows : CephRows state selected asks (w.chosen .remotePool)
  osds : l.osdRows = w.chosen .remotePool
  wiped : Devices (w.wiped .remotePool)
  wipes : ∀ row ∈ w.chosen .remotePool,
    (row.location, row.path) ∈ l.wipeDisks ↔ Row.at? (w.wiped .remotePool) row.location row.path

theorem cephChosen_nil (hosds : l.osdRows = []) (hchosen : w.chosen .remotePool = [])
    (hwiped : Devices (w.wiped .remotePool)) : CephChosen state selected asks l w := by
  refine ⟨?_, hosds.trans hchosen.symm, hwiped, ?_⟩
  · rw [hchosen]
    exact cephRows_nil
  · rw [hchosen]
    exact fun _ hrow => (nomatch hrow)

theorem mem_targets (rows : List Row) (m path : String) :
    (m, path) ∈ rows.map (fun row => (row.location, row.path)) ↔ Row.at? rows m path := by
  rw [List.mem_map]
  refine exists_congr fun row => and_congr_right fun _ => ?_
  rw [Prod.mk.injEq]

theorem not_at?_of_loop (h : CephRows state selected asks rows) {wiped : List Row} (hwiped : Devices wiped)
    (hnone : deviceRows rows = []) (hrow : row ∈ rows) : ¬ Row.at? wiped row.location row.path := by
  rintro ⟨row', hrow', -, hpath⟩
  have hdevice := hwiped row' hrow'
  rw [hpath] at hdevice
  have htype : row.type = diskTypeLoop := by
    by_contra htype
    have hmem := mem_deviceRows.mpr ⟨hrow, htype⟩
    rw [hnone] at hmem
    cases hmem
  rw [h.loop row hrow htype] at hdevice
  cases hdevice

section

variable {α : Type} {m : Wizard α} {otherwise : α}

@[simp]
theorem askIf_true : askIf true otherwise m = m := rfl

@[simp]
theorem askIf_false : askIf false otherwise m = pure otherwise := rfl

variable {E : WizardError → Asking → Asked → Prop}

theorem wp_askIf {asks : Bool} {Q : α → Asking → Asked → Prop}
    (hm : (∀ a, Q a l w) → wp (operator site) (fun _ => True) Q E m l w) (hQ : ∀ a, Q a l w) :
    wp (operator site) (fun _ => True) Q E (askIf asks otherwise m) l w := by
  cases asks with
  | true => exact hm hQ
  | false => exact hQ otherwise

end

section

variable {existing : List String} {joinRemote : Bool}

theorem wp_keepSelection {answers toWipe : List Row}
    (hlocal : LocalDone site state luns names selected l.config w)
    (hrows : CephRows state selected asks answers) (hanswers : w.chosen .remotePool = answers)
    (hwiped : Devices (w.wiped .remotePool)) (hwipes : ∀ row ∈ answers,
      (row.location, row.path) ∈ toWipe.map (fun row => (row.location, row.path)) ↔
        Row.at? (w.wiped .remotePool) row.location row.path) :
    wp (operator site) (fun _ => True)
      (fun _ l w => LocalDone site state luns names selected l.config w ∧ CephChosen state selected asks l w)
      (fun _ l w => LocalDone site state luns names selected l.config w ∧ CephChosen state selected asks l w)
      (do
        assign fun l => { l with osdRows := answers, wipeDisks := toWipe.map fun row => (row.location, row.path) }
        if answers = [] ∧ existing = [] then throw (.input "No disks were selected")
        else if !joinRemote && (existing ++ answers.map (·.location)).dedup.length < recommendedOSDHosts then
          throw .warning
        else pure ())
      l w := by
  have hchosen : CephChosen state selected asks
      { l with osdRows := answers, wipeDisks := toWipe.map fun row => (row.location, row.path) } w := by
    refine ⟨?_, hanswers.symm, hwiped, ?_⟩
    · rw [hanswers]
      exact hrows
    · rw [hanswers]
      exact hwipes
  rw [wp_bind, wp_assign]
  split_ifs
  · exact ⟨hlocal, hchosen⟩
  · exact ⟨hlocal, hchosen⟩
  · exact ⟨hlocal, hchosen⟩

theorem wp_selectRemote (hrows : CephRows state selected asks rows)
    (hlocal : LocalDone site state luns names selected l.config w) (hwiped : Devices (w.wiped .remotePool))
    (hfirst : rows = [] → w.chosen .remotePool = []) :
    wp (operator site) (fun _ => True)
      (fun _ l w => LocalDone site state luns names selected l.config w ∧ CephChosen state selected asks l w)
      (fun _ l w => LocalDone site state luns names selected l.config w ∧ CephChosen state selected asks l w ∧
        (rows = [] → w.chosen .remotePool = []))
      (selectRemote rows existing joinRemote) l w := by
  have hself : ∀ chosen : Pool → List Row, ∀ answers,
      update chosen .remotePool answers .remotePool = answers := fun _ _ => update_self _ _ _
  have hnothing : ∀ chosen : Pool → List Row, ∀ l : Asking, l.osdRows = [] →
      CephChosen state selected asks l ⟨update chosen .remotePool [], w.wiped⟩ :=
    fun chosen l hosds => cephChosen_nil hosds (hself chosen []) hwiped
  unfold selectRemote
  rw [wp_bind, wp_assign]
  split_ifs with hempty
  · exact ⟨hlocal, cephChosen_nil rfl (hfirst hempty) hwiped, hfirst⟩
  · rw [wp_bind]
    refine wp_select (fun picks => ?_) fun e => ⟨hlocal.select [], hnothing _ _ rfl, fun h => absurd h hempty⟩
    have hpicked : CephRows state selected asks (pickRows rows picks) := hrows.mono fun row hrow =>
      mem_pickRows hrow
    generalize pickRows rows picks = answers at hpicked
    have hafter := hlocal.select answers
    rw [wp_bind]
    by_cases hdevice : deviceRows answers = []
    · rw [decide_eq_false (not_not.mpr hdevice), askIf_false, wp_pure]
      refine wp_mono (fun _ _ _ h => h) (fun _ _ _ h => ⟨h.1, h.2, fun h => absurd h hempty⟩)
        (wp_keepSelection hafter hpicked (hself w.chosen answers) hwiped fun row hrow => ?_)
      exact iff_of_false not_mem_nil (not_at?_of_loop hpicked hwiped hdevice hrow)
    · rw [decide_eq_true hdevice, askIf_true]
      refine wp_selectWipe (fun picks => ?_) fun e => ?_
      · have hupdated : update w.wiped .remotePool (pickRows (deviceRows answers) picks) .remotePool =
            pickRows (deviceRows answers) picks := update_self _ _ _
        refine wp_mono (fun _ _ _ h => h) (fun _ _ _ h => ⟨h.1, h.2, fun h => absurd h hempty⟩)
          (wp_keepSelection (hafter.of_chosen rfl) hpicked (hself w.chosen answers) ?_ fun row hrow => ?_)
        · intro row hrow
          have hmem : row ∈ pickRows (deviceRows answers) picks := by
            rw [← hupdated]
            exact hrow
          exact hpicked.devices row (mem_pickRows hmem)
        · refine (mem_targets _ _ _).trans (iff_of_eq ?_)
          exact congrArg (fun wiped => Row.at? wiped row.location row.path) hupdated.symm
      · exact ⟨hafter.select [], hnothing _ _ rfl, fun h => absurd h hempty⟩

theorem wp_existingMembers {Q : List String → Asking → Asked → Prop}
    (hQ : ∀ members, Q members l w) (hE : ∀ e, E e l w) :
    wp (operator site) (fun _ => True) Q E (existingMembers c) l w := by
  unfold existingMembers
  cases c.state.find? (fun e => e.2.cephClustered) with
  | none => exact hQ []
  | some e =>
    dsimp only
    split_ifs
    · exact hE _
    · rw [wp_bind]
      exact wp_plain (c := .cephDisks _) (fun _ _ => rfl) (fun disks => hQ _) hE

theorem wp_chooseOSDs {ask : RemoteAsk} {offers : Bool} {tries : ℕ}
    (hlocal : LocalDone site state luns names selected l.config w)
    (hosds : l.osdRows = []) (hchosen : w.chosen .remotePool = []) (hwiped : Devices (w.wiped .remotePool)) :
    wp (operator site) (fun _ => True)
      (fun wanted l w => LocalDone site state luns names selected l.config w ∧
        CephChosen state selected ask.askSystemsRemote l w ∧ (wanted = false → w.chosen .remotePool = []))
      (fun _ _ _ => True) (chooseOSDs ask existing offers tries) l w := by
  have hrows := cephRows_remoteDisks hlocal.toLocalSettled ask.askSystemsRemote
  unfold chooseOSDs
  rw [wp_bind, wp_locals, wp_bind]
  refine wp_mono (Q := fun _ l w => LocalDone site state luns names selected l.config w ∧
    CephChosen state selected ask.askSystemsRemote l w) (E := fun _ _ _ => True) (fun _ l w h => ?_)
    (fun _ _ _ _ => trivial) ?_
  · rw [wp_bind, wp_locals, wp_pure]
    refine ⟨h.1, h.2, fun hunwanted => ?_⟩
    rw [← h.2.osds]
    simpa using (Bool.or_eq_false_iff.mp hunwanted).1
  · rw [wp_when]
    split_ifs
    · refine wp_askRetry (J := fun l w => LocalDone site state luns names selected l.config w ∧
          Devices (w.wiped .remotePool) ∧ (rowsOf _ = [] → w.chosen .remotePool = []))
        (fun l w h => wp_selectRemote hrows h.1 h.2.1 h.2.2) (fun l w h => ⟨h.1, h.2.1.wiped, h.2.2⟩)
        (fun l w h => ?_) (fun _ _ _ => trivial) ⟨hlocal, hwiped, fun _ => hchosen⟩
      rw [if_neg remotePool_ne]
      exact ⟨h.1, h.2.1⟩
    · exact ⟨hlocal, cephChosen_nil hosds hchosen hwiped⟩

theorem wp_askOSDs {ask : RemoteAsk} {tries : ℕ}
    (hlocal : LocalDone site state luns names selected l.config w) (hw : Unasked w) :
    wp (operator site) (fun _ => True)
      (fun wanted l w => LocalDone site state luns names selected l.config w ∧
        CephChosen state selected ask.askSystemsRemote l w ∧ (wanted = false → w.chosen .remotePool = []))
      (fun _ _ _ => True) (askOSDs ask tries) l w := by
  have hwiped : Devices (w.wiped .remotePool) := by
    rw [hw.2]
    exact fun _ hrow => (nomatch hrow)
  unfold askOSDs
  rw [wp_bind, wp_locals, wp_bind, wp_assign]
  split_ifs
  · exact ⟨hlocal, cephChosen_nil rfl hw.1 hwiped, fun h => (nomatch h)⟩
  · rw [wp_bind]
    refine wp_existingMembers (fun existing => ?_) fun _ => trivial
    rw [wp_bind]
    refine wp_plain (c := .askBool _) (fun _ _ => rfl) (fun wantsDisks => ?_) fun _ => trivial
    rw [wp_bind]
    refine wp_askIf (fun hQ => wp_plain (c := .askLoopSize _) (fun _ _ => rfl) hQ fun _ => trivial)
      fun loopGiB => ?_
    rw [wp_bind, wp_assign]
    have hoffered := hlocal.offer ask.askSystemsRemote loopGiB
    dsimp only
    split_ifs
    · exact ⟨hoffered, cephChosen_nil rfl hw.1 hwiped, fun _ => hw.1⟩
    · exact wp_chooseOSDs hoffered rfl hw.1 hwiped

end

/-! ### Planning Ceph -/

structure CephPlanned (site : Site) (selected : OrdMap String String) (w : Asked)
    (e : String × InitSystem) : Prop where
  localDisks : e.2.localDisks = plannedDisk site selected e.1
  lvm : e.2.lvmDisks = []
  paths : e.2.microCephDisks.map (·.path) =
    ((w.chosen .remotePool).filter fun row => row.location = e.1).map (·.path)
  wipes : ∀ d ∈ e.2.microCephDisks, d.wipe = true ↔ Row.at? (w.wiped .remotePool) e.1 d.path

structure CephDone (site : Site) (state : OrdMap String SystemInformation) (luns : List Disk)
    (names : List String)
    (selected : OrdMap String String) (asks : List String) (c : InitConfig) (w : Asked) : Prop
    extends LocalSettled state luns names selected c w where
  ceph : CephRows state selected asks (w.chosen .remotePool)
  systems : ∀ e ∈ c.systems, CephPlanned site selected w e
  planned : c.hasRemotePool = true ∨ ∀ e ∈ c.systems, e.2.microCephDisks = []

theorem cephDone_unplanned (hlocal : LocalDone site state luns names selected c w)
    (hchosen : w.chosen .remotePool = []) : CephDone site state luns names selected [] c w := by
  refine ⟨hlocal.toLocalSettled, ?_, fun e he => ?_, .inr fun e he => (hlocal.systems e he).2.1⟩
  · rw [hchosen]
    exact cephRows_nil
  · obtain ⟨hdisks, hceph, hlvm⟩ := hlocal.systems e he
    refine ⟨hdisks, hlvm, ?_, ?_⟩
    · rw [hceph, hchosen]
      rfl
    · rw [hceph]
      exact fun d hd => (nomatch hd)

section

variable {p : RemotePlan} {system : InitSystem}

theorem name_targetConfig : ∀ pool ∈ p.targetConfig m, pool.name ≠ defaultZFSPool ∧
    pool.driver ≠ "lvmcluster" := by
  unfold RemotePlan.targetConfig defaultPendingCephStoragePool defaultPendingCephFSStoragePool
  intro pool hpool
  rcases mem_append.mp hpool with hpool | hpool
  · split_ifs at hpool
    · rw [mem_singleton.mp hpool]
      exact ⟨by decide, by decide⟩
    · rw [mem_singleton.mp hpool]
      exact ⟨by decide, by decide⟩
    · cases hpool
  · split_ifs at hpool
    · rw [mem_singleton.mp hpool]
      exact ⟨by decide, by decide⟩
    · rw [mem_singleton.mp hpool]
      exact ⟨by decide, by decide⟩
    · cases hpool

theorem name_joinConfig : ∀ k ∈ p.joinConfig m, k.name ≠ defaultZFSPool := by
  unfold RemotePlan.joinConfig defaultCephFSStoragePoolJoinConfig
  intro k hk
  rcases mem_append.mp hk with hk | hk
  · split_ifs at hk
    · rw [mem_singleton.mp hk]
      decide
    · cases hk
  · split_ifs at hk
    · cases hk
    · rw [mem_singleton.mp hk]
      decide
    · cases hk

theorem paths_osds :
    (p.osds m).map (·.path) = (p.osdRows.filter fun row => row.location = m).map (·.path) := by
  unfold RemotePlan.osds
  rw [map_map]
  rfl

theorem hasRemotePool_plan {e : String × InitSystem} (he : e ∈ c.systems)
    (hm : e.1 ∈ p.ask.askSystemsRemote) : (p.apply c).hasRemotePool = true := by
  unfold InitConfig.hasRemotePool
  rw [any_eq_true]
  refine ⟨(e.1, p.system e.1 e.2), mem_map_of_mem he, ?_⟩
  rw [Bool.or_eq_true, any_eq_true, any_eq_true]
  by_cases hjoin : p.ask.joinRemote = true
  · refine .inr ⟨defaultCephStoragePoolJoinConfig, mem_append_right _ (mem_append_left _ ?_), rfl⟩
    rw [if_pos ⟨hjoin, hm⟩]
    exact mem_singleton_self _
  · refine .inl ⟨defaultPendingCephStoragePool p.dropSource, mem_append_left _ (mem_append_right _
      (mem_append_left _ ?_)), rfl⟩
    rw [if_pos ⟨by simpa using hjoin, hm⟩]
    exact mem_singleton_self _

theorem cephDone_planned (hlocal : LocalDone site state luns names selected l.config w)
    (hchosen : CephChosen state selected p.ask.askSystemsRemote l w) (hosds : p.osdRows = l.osdRows)
    (hwipes : p.wipeDisks = l.wipeDisks) :
    CephDone site state luns names selected p.ask.askSystemsRemote (p.apply l.config) w := by
  refine ⟨⟨?_, hlocal.luns, hlocal.keys, hlocal.rows, hlocal.chosen, hlocal.left⟩, hchosen.rows,
    fun e he => ?_, ?_⟩
  · show (l.config.systems.map _).map _ = names
    rw [map_map]
    exact hlocal.names
  · obtain ⟨e₀, he₀, rfl⟩ := List.mem_map.mp he
    obtain ⟨hdisks, hceph, hlvm⟩ := hlocal.systems e₀ he₀
    refine ⟨?_, ?_, ?_, fun d hd => ?_⟩
    · rw [← hdisks]
      exact localDisks_append (fun pool hpool => (name_targetConfig pool hpool).1) name_joinConfig rfl rfl
    · rw [← hlvm]
      exact lvmDisks_append (fun pool hpool => (name_targetConfig pool hpool).2) rfl
    · show (e₀.2.microCephDisks ++ p.osds e₀.1).map _ = _
      rw [hceph, nil_append, paths_osds, hosds, hchosen.osds]
    · replace hd : d ∈ e₀.2.microCephDisks ++ p.osds e₀.1 := hd
      rw [hceph, nil_append] at hd
      obtain ⟨row, hrow, rfl⟩ := List.mem_map.mp hd
      obtain ⟨hrow, hm⟩ := mem_filter.mp hrow
      have hrow' : row ∈ w.chosen .remotePool := by rwa [hosds, hchosen.osds] at hrow
      show decide ((e₀.1, row.path) ∈ p.wipeDisks) = true ↔ Row.at? (w.wiped .remotePool) e₀.1 row.path
      rw [decide_eq_true_eq, hwipes, ← of_decide_eq_true hm]
      exact hchosen.wipes row hrow'
  · by_cases hnone : ∀ e ∈ (p.apply l.config).systems, e.2.microCephDisks = []
    · exact .inr hnone
    · left
      push Not at hnone
      obtain ⟨e, he, hdisks⟩ := hnone
      obtain ⟨e₀, he₀, rfl⟩ := List.mem_map.mp he
      obtain ⟨d, hd⟩ := exists_mem_of_ne_nil _ hdisks
      replace hd : d ∈ e₀.2.microCephDisks ++ p.osds e₀.1 := hd
      rw [(hlocal.systems e₀ he₀).2.1, nil_append] at hd
      obtain ⟨row, hrow, -⟩ := List.mem_map.mp hd
      obtain ⟨hrow, hm⟩ := mem_filter.mp hrow
      rw [hosds, hchosen.osds] at hrow
      have hasked := hchosen.rows.asked row hrow
      rw [of_decide_eq_true hm] at hasked
      exact hasRemotePool_plan he₀ hasked

theorem wp_askCephFS {joinRemoteFS : Bool} {Q : Bool → Asking → Asked → Prop}
    (hQ : ∀ setupCephFS, Q setupCephFS l w) (hE : ∀ e, E e l w) :
    wp (operator site) (fun _ => True) Q E (askCephFS joinRemoteFS) l w := by
  unfold askCephFS
  split_ifs
  · exact hQ true
  · rw [wp_bind]
    refine wp_hasExtension ?_ hE
    exact wp_askIf (fun hQ => wp_plain (c := .askBool _) (fun _ _ => rfl) hQ hE) hQ

theorem wp_askRemotePool {tries : ℕ} (hlocal : LocalDone site state luns names selected l.config w)
    (hw : Unasked w) : wp (operator site) (fun _ => True)
      (fun _ l w => ∃ asks, CephDone site state luns names selected asks l.config w) (fun _ _ _ => True)
      (askRemotePool site tries) l w := by
  have hskip : ∃ asks, CephDone site state luns names selected asks l.config w :=
    ⟨[], cephDone_unplanned hlocal hw.1⟩
  unfold askRemotePool
  split_ifs
  · exact hskip
  · rw [wp_bind, wp_locals, wp_bind]
    cases hasked : askedRemote l.config.state with
    | error e => exact trivial
    | ok asked =>
      cases asked with
      | none => exact hskip
      | some ask =>
        show wp _ _ _ _ (askOSDs ask tries >>= _) l w
        rw [wp_bind]
        refine wp_mono (fun wanted l w h => ?_) (fun _ _ _ _ => trivial) (wp_askOSDs hlocal hw)
        obtain ⟨hlocal, hchosen, hunwanted⟩ := h
        rw [wp_when]
        split_ifs with hwanted
        · rw [wp_bind, wp_locals, wp_bind]
          refine wp_askIf (fun hQ => wp_plain (c := .askBool _) (fun _ _ => rfl) hQ fun _ =>
            trivial) fun encrypt => ?_
          rw [wp_bind]
          refine wp_askCephFS (fun setupCephFS => ?_) fun _ => trivial
          rw [wp_bind]
          refine wp_plain (c := .askCephNetwork) (fun _ _ => rfl) (fun _ => ?_) fun _ => trivial
          rw [wp_bind]
          refine wp_hasExtension ?_ fun _ => trivial
          rw [wp_bind]
          refine wp_hasExtension ?_ fun _ => trivial
          exact ⟨ask.askSystemsRemote,
            cephDone_planned (p := ⟨site.name, ask, setupCephFS, encrypt, _, _, l.osdRows,
            l.wipeDisks⟩) hlocal hchosen rfl rfl⟩
        · exact ⟨[], cephDone_unplanned hlocal (hunwanted (by simpa using hwanted))⟩

end

end IncusCloud.Firecloud
