import IncusCloud.Firecloud.Proofs.PreseedDisks

/-!
# The orders of a preseed

Go ranges over its maps in any order, and what comes of a preseed depends on it only where the local
disks of all systems are filtered and found. When a preseed means one thing (`oneMeaning_iff`).
-/

namespace IncusCloud.Firecloud

open Lib List

variable {p p₀ : Preseed} {m : Machines} {o o' : Orders} {peer : String}
    {last last' : Option String} {f : DiskFilter}
  {s s' : InitSystem} {r r' : OrdMap String InitSystem}

/-! ### One meaning -/

structure SameSystem (s s' : InitSystem) : Prop where
  microCephDisks : s.microCephDisks.Perm s'.microCephDisks
  targetStoragePools : s.targetStoragePools.Perm s'.targetStoragePools
  storagePools : s.storagePools.Perm s'.storagePools
  joinConfig : s.joinConfig.Perm s'.joinConfig

def SameSystems (r r' : OrdMap String InitSystem) : Prop :=
  ∀ peer, Option.Rel SameSystem (r.get peer) (r'.get peer)

structure OneMeaning (p : Preseed) (m : Machines) : Prop where
  agree : ∀ o o', o.Possible p m → o'.Possible p m → ∀ r, p.parse m o = .ok r →
    ∃ r', p.parse m o' = .ok r' ∧ SameSystems r r'
  one : ∀ o, o.Possible p m → ∀ r, p.parse m o = .ok r → m.bootstrap = true →
    p.storage.localDisks ≠ [] → ∀ e ∈ r, e.2.localDisks.length = 1

theorem SameSystem.refl (s : InitSystem) : SameSystem s s := ⟨.refl _, .refl _, .refl _, .refl _⟩

theorem SameSystems.refl (r : OrdMap String InitSystem) : SameSystems r r := by
  intro peer
  cases r.get peer with
  | none => exact .none
  | some s => exact .some (SameSystem.refl s)

theorem SameSystem.length_localDisks (h : SameSystem s s') : s.localDisks.length = s'.localDisks.length := by
  unfold InitSystem.localDisks
  have hpools := (h.targetStoragePools.filterMap InitSystem.localDisk).length_eq
  have hsources := (h.joinConfig.filter fun k => k.name = defaultZFSPool && k.key = "source").length_eq
  rw [length_append, length_append, length_map, length_map, hpools, hsources]

/-! ### Who comes last -/

/-- What may come last in Go's order of the systems whose local disks are filtered. -/
def CanBeLast (p : Preseed) (m : Machines) : Option String → Prop
  | none => filteredZFS p m = []
  | some peer => peer ∈ filteredZFS p m

theorem canBeLast_of_possible (ho : o.Possible p m) : CanBeLast p m o.zfs.getLast? := by
  cases hlast : o.zfs.getLast? with
  | none =>
    rw [List.getLast?_eq_none_iff] at hlast
    have hzfs := ho.zfs
    rw [hlast] at hzfs
    exact hzfs.symm.eq_nil
  | some peer => exact ho.zfs.mem_iff.mp (mem_of_getLast? hlast)

theorem exists_possible (h : CanBeLast p m last) : ∃ o : Orders, o.Possible p m ∧ o.zfs.getLast? = last := by
  cases last with
  | none => exact ⟨⟨_, _, []⟩, ⟨.refl _, .refl _, by rw [h]⟩, rfl⟩
  | some peer =>
    refine ⟨⟨_, _, (filteredZFS p m).erase peer ++ [peer]⟩, ⟨.refl _, .refl _, ?_⟩, List.getLast?_concat⟩
    exact perm_append_comm.trans (perm_cons_erase h).symm

/-! ### The checks -/

def DiskFilter.Unmet (f : DiskFilter) (found : ℕ) : Prop :=
  (found : ℤ) < f.findMin ∨ 0 < f.findMax ∧ f.findMax < (found : ℤ)

/-- What a preseed fails for: a kind of filter that has nothing to filter, a filter whose number of
disks is not what it asks for, or, on bootstrap, local disks on some systems only. -/
def Unmet (p : Preseed) (m : Machines) (last : Option String) : Prop :=
  (p.checkFilterCeph = [] ∧ p.storage.ceph ≠ []) ∨ (p.checkFilterZFS = [] ∧ p.storage.localDisks ≠ []) ∨
    (∃ f ∈ p.storage.ceph, f.Unmet ((cephFinds p m).count f.find)) ∨
    (∃ f ∈ p.storage.localDisks, f.Unmet ((zfsFinds p m last).count f.find)) ∨
    (m.bootstrap = true ∧ 0 < machinesFound p m ∧ machinesFound p m < m.systems.length)

theorem checkFilter_eq_ok {found : ℕ} {u : Unit} : checkFilter found f = .ok u ↔ ¬ f.Unmet found := by
  unfold checkFilter DiskFilter.Unmet
  split_ifs with hmin hmax
  · simp [hmin]
  · simp [hmax.1, hmax.2]
  · refine iff_of_true rfl fun h => ?_
    omega

theorem checkFilters_eq_ok {u : Unit} : p.checkFilters = .ok u ↔
    ¬ (p.checkFilterCeph = [] ∧ p.storage.ceph ≠ []) ∧
      ¬ (p.checkFilterZFS = [] ∧ p.storage.localDisks ≠ []) := by
  unfold Preseed.checkFilters
  split_ifs with hceph hzfs
  · simp [hceph]
  · simp [hzfs]
  · exact iff_of_true rfl ⟨hceph, hzfs⟩

theorem verdict_eq_ok {u : Unit} : verdict p m last = .ok u ↔ ¬ Unmet p m last := by
  have hmachines : (if m.bootstrap && 0 < machinesFound p m && machinesFound p m < m.systems.length then
      Except.error "Failed to find at least 1 disk on each machine for local storage pool configuration"
      else .ok ()) = .ok u ↔
        ¬ (m.bootstrap = true ∧ 0 < machinesFound p m ∧ machinesFound p m < m.systems.length) := by
    split_ifs with h
    · simpa [and_assoc] using h
    · simpa [and_assoc] using h
  unfold verdict checkMatches Unmet
  rw [bind_eq_ok]
  simp only [bind_eq_ok, forM_eq_ok, checkFilter_eq_ok, checkFilters_eq_ok, hmachines]
  simp only [not_or, not_exists, not_and]
  constructor
  · rintro ⟨-, ⟨hnoCeph, hnoLocal⟩, -, hceph, -, hlocal, hcovered⟩
    exact ⟨hnoCeph, hnoLocal, hceph, hlocal, hcovered⟩
  · rintro ⟨hnoCeph, hnoLocal, hceph, hlocal, hcovered⟩
    exact ⟨(), ⟨hnoCeph, hnoLocal⟩, (), hceph, (), hlocal, hcovered⟩

theorem parse_eq_ok (ho : o.Possible p m) : p.parse m o = .ok r ↔
    ¬ Unmet p m o.zfs.getLast? ∧ r = table m.systems (foundSystem p m o.zfs.getLast?) := by
  rw [parse_ok_iff ho, verdict_eq_ok]

/-! ### How many local disks -/

theorem length_localDisks_found : (foundSystem p m last peer).localDisks.length =
    (if givesLocal p peer then 1 else 0) + (applied p m last peer).length := by
  have hsources : (localSources (foundSystem p m last peer)).Perm
      ((if givesLocal p peer then [(p.direct peer).localDisk.path] else []) ++
        (applied p m last peer).map (firstPath m peer)) := perm_localSources
  have hperm := hsources.length_eq
  unfold localSources at hperm
  rw [length_map, length_append, length_map] at hperm
  rw [hperm]
  split_ifs
  · rfl
  · rfl

theorem countP_add_countP {α : Type} {l : List α} {a b : α → Bool}
    (hdisjoint : ∀ x ∈ l, a x = true → b x = false) :
    l.countP a + l.countP b = l.countP fun x => a x || b x := by
  induction l with
  | nil => rfl
  | cons x l ih =>
    have hrest := ih fun y hy => hdisjoint y (mem_cons_of_mem _ hy)
    have hx := hdisjoint x mem_cons_self
    rw [countP_cons, countP_cons, countP_cons, ← hrest]
    cases ha : a x with
    | true =>
      simp [hx ha]
      omega
    | false =>
      simp
      omega

theorem machinesFound_eq (hnodup : (p.systems.map (·.name)).Nodup) :
    machinesFound p m = m.systems.countP fun peer => givesLocal p peer || localHits p m peer ≠ [] := by
  unfold machinesFound filteredZFS
  have hhits : ((m.systems.filter (· ∈ p.checkFilterZFS)).filter fun peer => localHits p m peer ≠ []).length =
      m.systems.countP fun peer => localHits p m peer ≠ [] := by
    rw [filter_filter, countP_eq_length_filter]
    congr 1
    refine filter_congr fun peer _ => ?_
    by_cases hfiltered : peer ∈ p.checkFilterZFS
    · simp [hfiltered]
    · simp [hfiltered, localHits]
  rw [hhits, Nat.add_comm]
  refine countP_add_countP fun peer _ hgives => ?_
  rw [localHits_of_givesLocal hnodup hgives]
  decide

theorem one_localDisk_iff (hnodup : (p.systems.map (·.name)).Nodup) (hbootstrap : m.bootstrap = true)
    (hmet : ¬ Unmet p m last) : (∀ peer ∈ m.systems, (foundSystem p m last peer).localDisks.length = 1) ↔
      0 < machinesFound p m ∧ ∀ peer ∈ filteredZFS p m, (applied p m last peer).length ≤ 1 := by
  constructor
  · intro hone
    constructor
    · have hself := hone m.name (m.self hbootstrap)
      rw [machinesFound_eq hnodup, countP_pos_iff]
      refine ⟨m.name, m.self hbootstrap, ?_⟩
      rw [length_localDisks_found] at hself
      cases hgives : givesLocal p m.name with
      | true => rfl
      | false =>
        have hsome : localHits p m m.name ≠ [] := by
          intro hnone
          rw [hgives, applied_eq_nil.mpr hnone] at hself
          exact absurd hself (by decide)
        simp [hsome]
    · intro peer hpeer
      have hpeer' := hone peer (mem_filter.mp hpeer).1
      rw [length_localDisks_found] at hpeer'
      omega
  · rintro ⟨hsome, hsingle⟩ peer hpeer
    have hall : machinesFound p m = m.systems.length := by
      have hle := countP_le_length (p := fun peer => givesLocal p peer || localHits p m peer ≠ [])
        (l := m.systems)
      have heq := machinesFound_eq (m := m) hnodup
      by_contra hne
      exact hmet (.inr (.inr (.inr (.inr ⟨hbootstrap, hsome, by omega⟩))))
    rw [machinesFound_eq hnodup, countP_eq_length] at hall
    rw [length_localDisks_found]
    cases hgives : givesLocal p peer with
    | true => rw [applied_eq_nil.mpr (localHits_of_givesLocal hnodup hgives)]; rfl
    | false =>
      have hhits : localHits p m peer ≠ [] := by simpa [hgives] using hall peer hpeer
      have hfiltered : peer ∈ filteredZFS p m := by
        by_contra hnot
        refine hhits (if_neg fun hin => hnot ?_)
        exact mem_filter.mpr ⟨hpeer, decide_eq_true hin⟩
      have hle := hsingle peer hfiltered
      have hne : applied p m last peer ≠ [] := fun h => hhits (applied_eq_nil.mp h)
      have hpos := length_pos_iff.mpr hne
      rw [if_neg Bool.false_ne_true]
      omega

/-! ### When the orders agree -/

theorem applied_of_not_stops (hstops : ¬ Stops p m) : applied p m last peer = localHits p m peer :=
  if_neg fun h => hstops h.1

theorem applied_of_length (h : (localHits p m peer).length ≤ 1) :
    applied p m last peer = localHits p m peer := by
  unfold applied
  split_ifs
  · exact take_of_length_le h
  · rfl

theorem parse_congr (ho : o.Possible p m) (ho' : o'.Possible p m)
    (happlied : ∀ peer ∈ m.systems, applied p m o.zfs.getLast? peer = applied p m o'.zfs.getLast? peer) :
    p.parse m o = p.parse m o' := by
  have hfinds : zfsFinds p m o.zfs.getLast? = zfsFinds p m o'.zfs.getLast? := by
    refine flatMap_congr fun peer hpeer => ?_
    rw [happlied peer (mem_filter.mp hpeer).1]
  have hverdict : verdict p m o.zfs.getLast? = verdict p m o'.zfs.getLast? := by
    unfold verdict
    rw [hfinds]
  have hfound : table m.systems (foundSystem p m o.zfs.getLast?) =
    table m.systems (foundSystem p m o'.zfs.getLast?) :=
    table_congr fun peer hpeer => by
      unfold foundSystem zfsSystem
      rw [happlied peer hpeer]
  rw [parse_eq ho, parse_eq ho', hverdict, hfound]

theorem length_localDisks_of_agree (h : OneMeaning p m) (hlast : CanBeLast p m last)
    (hmet : ¬ Unmet p m last) (hlast' : CanBeLast p m last') (hpeer : peer ∈ m.systems) :
    (foundSystem p m last peer).localDisks.length = (foundSystem p m last' peer).localDisks.length := by
  obtain ⟨o, ho, rfl⟩ := exists_possible hlast
  obtain ⟨o', ho', rfl⟩ := exists_possible hlast'
  obtain ⟨r', hparse', hsame⟩ := h.agree o o' ho ho' _ ((parse_eq_ok ho).mpr ⟨hmet, rfl⟩)
  rw [((parse_eq_ok ho').mp hparse').2] at hsame
  have hsystem := hsame peer
  rw [get_table hpeer, get_table hpeer] at hsystem
  cases hsystem with
  | some hsystem => exact hsystem.length_localDisks

def SingleHits (p : Preseed) (m : Machines) : Prop :=
  (Stops p m ∧ m.systems.length ≤ 1) ∨ (m.bootstrap = false ∧ ¬ Stops p m) ∨
    (∀ peer ∈ filteredZFS p m, (localHits p m peer).length ≤ 1) ∧
      (m.bootstrap = true → p.storage.localDisks ≠ [] → 0 < machinesFound p m)

theorem length_localHits (hsingle : ∀ peer ∈ filteredZFS p m, (localHits p m peer).length ≤ 1)
    (hpeer : peer ∈ m.systems) : (localHits p m peer).length ≤ 1 := by
  by_cases hfiltered : peer ∈ p.checkFilterZFS
  · exact hsingle peer (mem_filter.mpr ⟨hpeer, decide_eq_true hfiltered⟩)
  · have hnone : localHits p m peer = [] := if_neg hfiltered
    rw [hnone]
    exact Nat.zero_le 1

theorem canBeLast_unique (hone : m.systems.length ≤ 1) (hlast : CanBeLast p m last)
    (hlast' : CanBeLast p m last') : last = last' := by
  have hlength : (filteredZFS p m).length ≤ 1 := (length_filter_le _ _).trans hone
  cases last with
  | none =>
    cases last' with
    | none => rfl
    | some peer' =>
      have hnone : filteredZFS p m = [] := hlast
      have hmem : peer' ∈ filteredZFS p m := hlast'
      rw [hnone] at hmem
      cases hmem
  | some peer =>
    have hmem : peer ∈ filteredZFS p m := hlast
    cases last' with
    | none =>
      have hnone : filteredZFS p m = [] := hlast'
      rw [hnone] at hmem
      cases hmem
    | some peer' =>
      have hmem' : peer' ∈ filteredZFS p m := hlast'
      have hpos := length_pos_of_mem hmem
      obtain ⟨k, hk⟩ := length_eq_one_iff.mp (show (filteredZFS p m).length = 1 by omega)
      rw [hk] at hmem hmem'
      rw [mem_singleton.mp hmem, mem_singleton.mp hmem']

theorem SingleHits.applied_eq (h : SingleHits p m) (hlast : CanBeLast p m last) (hlast' : CanBeLast p m last')
    (hpeer : peer ∈ m.systems) : applied p m last peer = applied p m last' peer := by
  rcases h with ⟨-, hone⟩ | ⟨-, hstops⟩ | ⟨hsingle, -⟩
  · rw [canBeLast_unique hone hlast hlast']
  · rw [applied_of_not_stops hstops, applied_of_not_stops hstops]
  · have hlength := length_localHits hsingle hpeer
    rw [applied_of_length hlength, applied_of_length hlength]

theorem Stops.machinesFound_pos (h : Stops p m) (hpeer : peer ∈ m.systems) : 0 < machinesFound p m := by
  have hfiltered : 0 < (filteredZFS p m).length := h.1 ▸ length_pos_of_mem hpeer
  obtain ⟨k, hk⟩ := exists_mem_of_length_pos hfiltered
  have hmem : k ∈ (filteredZFS p m).filter fun peer => localHits p m peer ≠ [] :=
    mem_filter.mpr ⟨hk, decide_eq_true (h.2 k hk)⟩
  have hpos := length_pos_of_mem hmem
  unfold machinesFound
  omega

theorem SingleHits.one (h : SingleHits p m) (hnodup : (p.systems.map (·.name)).Nodup)
    (hbootstrap : m.bootstrap = true)
    (hfilter : p.storage.localDisks ≠ []) (hlast : CanBeLast p m last) (hmet : ¬ Unmet p m last) :
    ∀ peer ∈ m.systems, (foundSystem p m last peer).localDisks.length = 1 := by
  rw [one_localDisk_iff hnodup hbootstrap hmet]
  rcases h with ⟨hstops, hone⟩ | ⟨hjoin, -⟩ | ⟨hsingle, hfound⟩
  · refine ⟨hstops.machinesFound_pos (m.self hbootstrap), fun peer hpeer => ?_⟩
    have hthis : CanBeLast p m (some peer) := hpeer
    exact length_applied.mpr (.inr ⟨hstops, canBeLast_unique hone hlast hthis⟩)
  · rw [hbootstrap] at hjoin
    cases hjoin
  · exact ⟨hfound hbootstrap hfilter, fun peer hpeer => length_applied.mpr (.inl (hsingle peer hpeer))⟩

theorem OneMeaning.plain_of_stops (h : OneMeaning p m) (hnodup : (p.systems.map (·.name)).Nodup)
    (hstops : Stops p m) (hmany : 1 < m.systems.length) (hlast : CanBeLast p m last)
    (hmet : ¬ Unmet p m last) :
    ∀ peer ∈ filteredZFS p m, (localHits p m peer).length ≤ 1 := by
  intro peer hpeer
  have hpeer' := (mem_filter.mp hpeer).1
  have hfiltered : givesLocal p peer = false := by
    cases hgives : givesLocal p peer with
    | true => exact absurd (localHits_of_givesLocal hnodup hgives) (hstops.2 peer hpeer)
    | false => rfl
  obtain ⟨k, hk, hne⟩ : ∃ k ∈ filteredZFS p m, k ≠ peer := by
    by_contra hnone
    have hsub : filteredZFS p m ⊆ [peer] := fun k hk =>
      mem_singleton.mpr (not_not.mp fun hne => hnone ⟨k, hk, hne⟩)
    have hnodup' : (filteredZFS p m).Nodup := m.nodup.filter _
    have hle := (subperm_of_subset hnodup' hsub).length_le
    rw [hstops.1, length_singleton] at hle
    omega
  have hsame := (length_localDisks_of_agree h hlast hmet (show CanBeLast p m (some peer) from hpeer)
    hpeer').symm.trans
    (length_localDisks_of_agree h hlast hmet (show CanBeLast p m (some k) from hk) hpeer')
  have hstopped : (applied p m (some peer) peer).length ≤ 1 := length_applied.mpr (.inr ⟨hstops, rfl⟩)
  have hother : applied p m (some k) peer = localHits p m peer := if_neg fun h => hne (Option.some.inj h.2)
  rw [length_localDisks_found, length_localDisks_found, hother] at hsame
  omega

/-- A preseed means one thing if and only if every order fails, or the order cannot matter and local
disks that are filtered are found. -/
theorem oneMeaning_iff (hvalid : p₀.validate m.name m.bootstrap = .ok p) :
    OneMeaning p m ↔ (∀ last, CanBeLast p m last → Unmet p m last) ∨ SingleHits p m := by
  have hnodup := nodup_of_validate hvalid
  constructor
  · intro h
    by_contra hnot
    rw [not_or] at hnot
    obtain ⟨hsome, hplain⟩ := hnot
    simp only [not_forall] at hsome
    obtain ⟨last, hlast, hmet⟩ := hsome
    refine hplain ?_
    by_cases hstops : Stops p m
    · by_cases hone : m.systems.length ≤ 1
      · exact .inl ⟨hstops, hone⟩
      · have hself : ∃ peer, peer ∈ m.systems := exists_mem_of_length_pos (by omega)
        refine .inr (.inr ⟨h.plain_of_stops hnodup hstops (by omega) hlast hmet, fun _ _ => ?_⟩)
        exact hstops.machinesFound_pos hself.choose_spec
    · cases hbootstrap : m.bootstrap with
      | false => exact .inr (.inl ⟨hbootstrap, hstops⟩)
      | true =>
        by_cases hfilter : p.storage.localDisks = []
        · refine .inr (.inr ⟨fun peer _ => ?_, fun _ h => absurd hfilter h⟩)
          unfold localHits
          rw [hfilter]
          split_ifs
          · exact Nat.zero_le 1
          · exact Nat.zero_le 1
        · obtain ⟨o, ho, rfl⟩ := exists_possible hlast
          have hone := h.one o ho _ ((parse_eq_ok ho).mpr ⟨hmet, rfl⟩) hbootstrap hfilter
          unfold table at hone
          rw [forall_mem_map] at hone
          obtain ⟨hfound, hsingle⟩ := (one_localDisk_iff hnodup hbootstrap hmet).mp hone
          refine .inr (.inr ⟨fun peer hpeer => ?_, fun _ _ => hfound⟩)
          exact (length_applied.mp (hsingle peer hpeer)).resolve_right fun h => hstops h.1
  · rintro (hunmet | hplain)
    · have hnone : ∀ o, o.Possible p m → ∀ r, p.parse m o ≠ .ok r := fun o ho r hparse =>
        ((parse_eq_ok ho).mp hparse).1 (hunmet _ (canBeLast_of_possible ho))
      exact ⟨fun o _ ho _ r hparse => absurd hparse (hnone o ho r),
        fun o ho r hparse => absurd hparse (hnone o ho r)⟩
    · refine ⟨fun o o' ho ho' r hparse => ⟨r, ?_, .refl r⟩, fun o ho r hparse hbootstrap hfilter => ?_⟩
      · rw [← parse_congr ho ho' fun peer hpeer =>
          hplain.applied_eq (canBeLast_of_possible ho) (canBeLast_of_possible ho') hpeer]
        exact hparse
      · obtain ⟨hmet, rfl⟩ := (parse_eq_ok ho).mp hparse
        unfold table
        rw [forall_mem_map]
        exact hplain.one hnodup hbootstrap hfilter (canBeLast_of_possible ho) hmet

section

/-- On each system one local filter finds one disk. -/
theorem oneMeaning_filtersApart : OneMeaning filtersApart twoMachines := by
  have hvalid : filtersApart.validate twoMachines.name twoMachines.bootstrap = .ok filtersApart := rfl
  exact (oneMeaning_iff hvalid).mpr (.inr (.inr (.inr ⟨by decide, by decide⟩)))

def twoFilters : Preseed where
  systems := [⟨"a", {}⟩, ⟨"b", {}⟩]
  cephFS := false
  storage := ⟨[{ find := "scsi", findMin := 1, findMax := 0 }, { find := "nvme", findMin := 1, findMax := 0 }], []⟩

/-- Whichever system comes last gets one disk, and the other gets two. -/
theorem two_filters_mean_two_things :
    twoFilters.validate twoMachines.name twoMachines.bootstrap = .ok twoFilters ∧
      ¬ OneMeaning twoFilters twoMachines := by
  refine ⟨rfl, fun h => ?_⟩
  have hlast : CanBeLast twoFilters twoMachines (some "a") := show "a" ∈ filteredZFS _ _ by decide
  have hlast' : CanBeLast twoFilters twoMachines (some "b") := show "b" ∈ filteredZFS _ _ by decide
  have hverdict : verdict twoFilters twoMachines (some "a") = .ok () := by decide
  have hmem : "a" ∈ twoMachines.systems := mem_cons_self
  have hsame := length_localDisks_of_agree h hlast (verdict_eq_ok.mp hverdict) hlast' hmem
  exact absurd hsame (by decide)

end

end IncusCloud.Firecloud
