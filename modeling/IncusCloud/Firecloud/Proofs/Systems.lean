import IncusCloud.Firecloud.Systems
import IncusCloud.Firecloud.Wizard

/-!
# What the systems report

`ClustersConflict` compares every system with the first one met for each service, and so finds every
pair that differs, in whatever order Go meets them. `Agrees` is what the turns so far have
established.

`sharedDisks` takes a disk for shared where as many reports name its path as there are systems.
That is every system's report only where no system reports the path twice, or other systems'
reports do not make up for one that misses it.
-/

namespace IncusCloud.Firecloud

open Lib List
open OrdMap (mem_of_get get_set get_cons)

/-! ### One comparison -/

def Members.Same (a b : Members) : Prop := ∀ name, a.entries.get name = b.entries.get name

namespace Members

variable {a b : Members}

theorem Same.symm (h : a.Same b) : b.Same a := fun name => (h name).symm

theorem Same.trans {c : Members} (h : a.Same b) (h' : b.Same c) : a.Same c := fun name =>
    (h name).trans (h' name)

theorem get_of_mem {e : String × String} (h : e ∈ a.entries) : a.entries.get e.1 = some e.2 :=
  OrdMap.get_of_mem a.distinct h

theorem address_eq_iff {name addr : String} (haddr : addr ≠ "") : a.address name = addr ↔
    (name, addr) ∈ a.entries := by
  unfold address
  constructor
  · intro h
    cases hget : a.entries.get name with
    | none =>
      rw [hget] at h
      exact absurd h.symm haddr
    | some x =>
      rw [hget] at h
      exact h ▸ mem_of_get hget
  · intro h
    rw [get_of_mem h]
    rfl

theorem same_iff (hb : ∀ e ∈ b.entries, e.2 ≠ "") :
    a.Same b ↔ (∀ e ∈ b.entries, a.address e.1 = e.2) ∧ a.entries.length = b.entries.length := by
  have hnodup : ∀ m : Members, m.entries.Nodup := fun m => m.distinct.of_map _
  constructor
  · intro h
    have hmem : ∀ e, e ∈ a.entries ↔ e ∈ b.entries := by
      intro e
      constructor
      · exact fun he => mem_of_get ((h e.1).symm.trans (get_of_mem he))
      · exact fun he => mem_of_get ((h e.1).trans (get_of_mem he))
    refine ⟨fun e he => (address_eq_iff (hb e he)).mpr ((hmem e).mpr he), ?_⟩
    exact ((perm_ext_iff_of_nodup (hnodup a) (hnodup b)).mpr hmem).length_eq
  · rintro ⟨hall, hlength⟩ name
    have hsub : b.entries ⊆ a.entries := fun e he => (address_eq_iff (hb e he)).mp (hall e he)
    have hperm : b.entries.Perm a.entries := (subperm_of_subset (hnodup b) hsub).perm_of_length_le hlength.le
    cases hget : b.entries.get name with
    | some x => exact get_of_mem (hsub (mem_of_get hget))
    | none =>
      by_contra hne
      obtain ⟨x, hx⟩ := Option.ne_none_iff_exists'.mp hne
      have hxb := get_of_mem (hperm.mem_iff.mpr (mem_of_get hx))
      rw [hget] at hxb
      cases hxb

end Members

/-! ### The turns -/

/-- The turns so far met no two clusters of a service: what is recorded is the first one, and all
the others are it. -/
structure Agrees (done : List (Visit × ServiceType)) (first : OrdMap ServiceType Members) : Prop where
  unmet : ∀ s, first.get s = none → ∀ t ∈ done, t.2 = s → t.1.info.serviceClustered s = false
  met : ∀ s c, first.get s = some c →
    (∃ t ∈ done, t.2 = s ∧ t.1.info.serviceClustered s = true ∧ c = t.1.info.members s) ∧
      ∀ t ∈ done, t.2 = s → t.1.info.serviceClustered s = true → c.Same (t.1.info.members s)

def Differ (done : List (Visit × ServiceType)) (s : ServiceType) : Prop :=
  ∃ t ∈ done, ∃ t' ∈ done, (t.2 = s ∧ t.1.info.serviceClustered s = true) ∧
    (t'.2 = s ∧ t'.1.info.serviceClustered s = true) ∧ ¬ (t.1.info.members s).Same (t'.1.info.members s)

/-- The inner loop meets the members of its system, and none has an empty address. -/
structure Visit.Sound (v : Visit) : Prop where
  members : ∀ s, (v.members s).Perm (v.info.members s).entries
  addressed : ∀ s, ∀ e ∈ (v.info.members s).entries, e.2 ≠ ""

variable {first : OrdMap ServiceType Members}

theorem compareFirst_spec {done : List (Visit × ServiceType)}
    {t : Visit × ServiceType} (h : Agrees done first) (ht : t.1.Sound) :
    match compareFirst first t with
    | .ok first' => Agrees (done ++ [t]) first'
    | .error s => s = t.2 ∧ Differ (done ++ [t]) s := by
  obtain ⟨v, service⟩ := t
  have hnew : ∀ {t}, t ∈ done ++ [(v, service)] ↔ t ∈ done ∨ t = (v, service) := by
    intro t
    rw [mem_append, mem_singleton]
  unfold compareFirst
  dsimp only
  split_ifs with hclustered
  · -- It is not clustered.
    refine ⟨fun s hs t hmem hts => ?_, fun s c hs => ?_⟩
    · rcases hnew.mp hmem with hmem | rfl
      · exact h.unmet s hs t hmem hts
      · exact hts ▸ hclustered
    · obtain ⟨⟨t, hmem, ht⟩, hall⟩ := h.met s c hs
      refine ⟨⟨t, hnew.mpr (.inl hmem), ht⟩, fun t hmem hts hyes => ?_⟩
      rcases hnew.mp hmem with hmem | rfl
      · exact hall t hmem hts hyes
      · subst hts
        exact absurd (hclustered.symm.trans hyes) Bool.false_ne_true
  · have hyes : v.info.serviceClustered service = true := Bool.eq_true_of_not_eq_false hclustered
    cases hfirst : first.get service with
    | none =>
      -- It is the first cluster of the service.
      refine ⟨fun s hs t hmem hts => ?_, fun s c hs => ?_⟩
      · rw [get_set] at hs
        split_ifs at hs with heq
        rcases hnew.mp hmem with hmem | rfl
        · exact h.unmet s hs t hmem hts
        · exact absurd hts.symm heq
      · rw [get_set] at hs
        split_ifs at hs with heq
        · subst heq
          have hc := (Option.some.inj hs).symm
          refine ⟨⟨_, hnew.mpr (.inr rfl), rfl, hyes, hc⟩, fun t hmem hts hyes' => ?_⟩
          rcases hnew.mp hmem with hmem | rfl
          · exact absurd ((h.unmet s hfirst t hmem hts).symm.trans hyes') Bool.false_ne_true
          · exact fun name => by rw [hc]
        · obtain ⟨⟨t, hmem, ht⟩, hall⟩ := h.met s c hs
          refine ⟨⟨t, hnew.mpr (.inl hmem), ht⟩, fun t hmem hts hyes' => ?_⟩
          rcases hnew.mp hmem with hmem | rfl
          · exact hall t hmem hts hyes'
          · exact absurd hts.symm heq
    | some cluster =>
      have hsame := Members.same_iff (a := cluster) (ht.addressed service)
      have hfirsts := h.met service cluster hfirst
      have hdiffer : ¬ cluster.Same (v.info.members service) → Differ (done ++ [(v, service)]) service := by
        intro hne
        obtain ⟨t, hmem, hts, hyes', hc⟩ := hfirsts.1
        exact ⟨t, hnew.mpr (.inl hmem), _, hnew.mpr (.inr rfl), ⟨hts, hyes'⟩, ⟨rfl, hyes⟩, hc ▸ hne⟩
      dsimp only
      split_ifs with hany hlength
      · refine ⟨rfl, hdiffer fun hs => ?_⟩
        obtain ⟨e, he, hne⟩ := any_eq_true.mp hany
        exact of_decide_eq_true hne ((hsame.mp hs).1 e ((ht.members service).mem_iff.mp he))
      · exact ⟨rfl, hdiffer fun hs => hlength (hsame.mp hs).2⟩
      · -- It is the first one's.
        have hs : cluster.Same (v.info.members service) := by
          refine hsame.mpr ⟨fun e he => ?_, not_not.mp hlength⟩
          by_contra hne
          exact hany (any_eq_true.mpr ⟨e, (ht.members service).mem_iff.mpr he, decide_eq_true hne⟩)
        refine ⟨fun s hs' t hmem hts => ?_, fun s c hs' => ?_⟩
        · rcases hnew.mp hmem with hmem | rfl
          · exact h.unmet s hs' t hmem hts
          · subst hts
            cases hfirst.symm.trans hs'
        · obtain ⟨⟨t, hmem, ht⟩, hall⟩ := h.met s c hs'
          refine ⟨⟨t, hnew.mpr (.inl hmem), ht⟩, fun t hmem hts hyes' => ?_⟩
          rcases hnew.mp hmem with hmem | rfl
          · exact hall t hmem hts hyes'
          · subst hts
            exact Option.some.inj (hfirst.symm.trans hs') ▸ hs

variable {s : ServiceType}

theorem Differ.mono {done later : List (Visit × ServiceType)} (h : Differ done s) :
    Differ (done ++ later) s := by
  obtain ⟨t, ht, t', ht', hrest⟩ := h
  exact ⟨t, mem_append_left _ ht, t', mem_append_left _ ht', hrest⟩

theorem foldlM_compareFirst {done later : List (Visit × ServiceType)}
    (h : Agrees done first) (hlater : ∀ t ∈ later, t.1.Sound) :
    match later.foldlM compareFirst first with
    | .ok first' => Agrees (done ++ later) first'
    | .error s => s ∈ later.map (·.2) ∧ Differ (done ++ later) s := by
  induction later generalizing done first with
  | nil => exact (append_nil done).symm ▸ h
  | cons t later ih =>
    have hturn := compareFirst_spec h (hlater t mem_cons_self)
    have happend : done ++ t :: later = done ++ [t] ++ later := by simp
    rw [foldlM_cons]
    cases hc : compareFirst first t with
    | error s =>
      rw [hc] at hturn
      show s ∈ (t :: later).map (·.2) ∧ Differ (done ++ t :: later) s
      exact ⟨mem_cons.mpr (.inl hturn.1), happend ▸ hturn.2.mono⟩
    | ok first' =>
      rw [hc] at hturn
      have hrest := ih hturn fun t' ht' => hlater t' (mem_cons_of_mem _ ht')
      show match later.foldlM compareFirst first' with
        | .ok first' => Agrees (done ++ t :: later) first'
        | .error s => s ∈ (t :: later).map (·.2) ∧ Differ (done ++ t :: later) s
      rw [happend]
      cases hl : later.foldlM compareFirst first' with
      | ok _ =>
        rw [hl] at hrest
        exact hrest
      | error s =>
        rw [hl] at hrest
        exact ⟨mem_cons_of_mem _ hrest.1, hrest.2⟩

theorem Agrees.not_differ {done : List (Visit × ServiceType)}
    (h : Agrees done first) (s : ServiceType) : ¬ Differ done s := by
  rintro ⟨t, ht, t', ht', ⟨hts, hyes⟩, ⟨hts', hyes'⟩, hne⟩
  cases hfirst : first.get s with
  | none => exact nomatch (h.unmet s hfirst t ht hts).symm.trans hyes
  | some c =>
    have hall := (h.met s c hfirst).2
    exact hne ((hall t ht hts hyes).symm.trans (hall t' ht' hts' hyes'))

/-! ### All pairs -/

def Conflicting (systems : OrdMap String SystemServices) (s : ServiceType) : Prop :=
  ∃ a ∈ systems, ∃ b ∈ systems, a.2.serviceClustered s = true ∧ b.2.serviceClustered s = true ∧
    ¬ (a.2.members s).Same (b.2.members s)

structure Order (systems : OrdMap String SystemServices) (services : List ServiceType)
    (visits : List Visit) : Prop where
  systems : (visits.map (·.info)).Perm (systems.map (·.2))
  services : ∀ v ∈ visits, v.services.Perm services
  members : ∀ v ∈ visits, ∀ s, (v.members s).Perm (v.info.members s).entries

section Orders

variable {systems : OrdMap String SystemServices} {services : List ServiceType} {visits : List Visit}

theorem Order.mem_info (h : Order systems services visits) {info : SystemServices} :
    (∃ v ∈ visits, v.info = info) ↔ ∃ e ∈ systems, e.2 = info := by
  rw [← List.mem_map, ← List.mem_map]
  exact h.systems.mem_iff

theorem Order.mem_turns (h : Order systems services visits) {v : Visit} :
    (v, s) ∈ turns visits ↔ v ∈ visits ∧ s ∈ services := by
  simp only [turns, mem_flatMap, List.mem_map, Prod.mk.injEq]
  constructor
  · rintro ⟨v', hv', s', hs', rfl, rfl⟩
    exact ⟨hv', (h.services v' hv').mem_iff.mp hs'⟩
  · rintro ⟨hv, hs⟩
    exact ⟨v, hv, s, (h.services v hv).mem_iff.mpr hs, rfl, rfl⟩

theorem Order.differ_iff (h : Order systems services visits) :
    Differ (turns visits) s ↔ s ∈ services ∧ Conflicting systems s := by
  constructor
  · rintro ⟨⟨v, s₁⟩, ht, ⟨v', s₂⟩, ht', ⟨rfl, hyes⟩, ⟨-, hyes'⟩, hne⟩
    obtain ⟨hv, hs⟩ := h.mem_turns.mp ht
    obtain ⟨a, ha, hav⟩ := h.mem_info.mp ⟨v, hv, rfl⟩
    obtain ⟨b, hb, hbv⟩ := h.mem_info.mp ⟨v', (h.mem_turns.mp ht').1, rfl⟩
    rw [← hav] at hyes hne
    rw [← hbv] at hyes' hne
    exact ⟨hs, a, ha, b, hb, hyes, hyes', hne⟩
  · rintro ⟨hs, a, ha, b, hb, hyes, hyes', hne⟩
    obtain ⟨v, hv, hva⟩ := h.mem_info.mpr ⟨a, ha, rfl⟩
    obtain ⟨v', hv', hvb⟩ := h.mem_info.mpr ⟨b, hb, rfl⟩
    rw [← hva] at hyes hne
    rw [← hvb] at hyes' hne
    exact ⟨(v, s), h.mem_turns.mpr ⟨hv, hs⟩, (v', s), h.mem_turns.mpr ⟨hv', hs⟩, ⟨rfl, hyes⟩,
      ⟨rfl, hyes'⟩, hne⟩

/-- **Conflicting clusters are always found**: whatever the order, `ClustersConflict` finds a
conflict exactly where two systems report different clusters of one of the services, and names such
a service. -/
theorem clustersConflict_iff (horder : Order systems services visits)
    (haddr : ∀ e ∈ systems, ∀ s, ∀ m ∈ (e.2.members s).entries, m.2 ≠ "") :
    ((clustersConflict visits).1 = true ↔ ∃ s ∈ services, Conflicting systems s) ∧
      ((clustersConflict visits).1 = true →
        (clustersConflict visits).2 ∈ services ∧ Conflicting systems (clustersConflict visits).2) := by
  have hsound : ∀ t ∈ turns visits, t.1.Sound := by
    rintro ⟨v, s⟩ ht
    have hv := (horder.mem_turns.mp ht).1
    obtain ⟨e, he, hev⟩ := horder.mem_info.mp ⟨v, hv, rfl⟩
    exact ⟨horder.members v hv, fun s => hev ▸ haddr e he s⟩
  have hstart : Agrees [] [] := ⟨fun _ _ t ht => (nomatch ht), fun _ _ hs => nomatch hs⟩
  have hrun := foldlM_compareFirst hstart hsound
  unfold clustersConflict
  cases hf : (turns visits).foldlM compareFirst [] with
  | ok first =>
    rw [hf] at hrun
    refine ⟨iff_of_false (nomatch ·) ?_, nofun⟩
    rintro ⟨s, hs, hconflict⟩
    exact hrun.not_differ s (horder.differ_iff.mpr ⟨hs, hconflict⟩)
  | error s =>
    rw [hf] at hrun
    obtain ⟨hs, hconflict⟩ := horder.differ_iff.mp hrun.2
    exact ⟨iff_of_true rfl ⟨s, hs, hconflict⟩, fun _ => ⟨hs, hconflict⟩⟩

end Orders

/-- The members of one cluster; `b` knows them under another address. -/
def membersAB (addr : String) : Members := ⟨[("a", "10.0.0.1"), ("b", addr)], by simp⟩

def systemsAB : OrdMap String SystemServices :=
  [("a", ⟨[("Incus", membersAB "10.0.0.2")]⟩), ("b", ⟨[("Incus", membersAB "10.0.0.3")]⟩)]

def visitsBA : List Visit :=
  [⟨⟨[("Incus", membersAB "10.0.0.3")]⟩, ["MicroCeph", "Incus"], fun s =>
      ((SystemServices.mk [("Incus", membersAB "10.0.0.3")]).members s).entries.reverse⟩,
    ⟨⟨[("Incus", membersAB "10.0.0.2")]⟩, ["MicroCeph", "Incus"], fun s =>
      ((SystemServices.mk [("Incus", membersAB "10.0.0.2")]).members s).entries.reverse⟩]

/-- Two systems that know a member under different addresses. -/
theorem clustersConflict_iff_twoAddresses :
    ((clustersConflict visitsBA).1 = true ↔ ∃ s ∈ ["Incus", "MicroCeph"], Conflicting systemsAB s) ∧
      ((clustersConflict visitsBA).1 = true → (clustersConflict visitsBA).2 ∈ ["Incus", "MicroCeph"] ∧
        Conflicting systemsAB (clustersConflict visitsBA).2) := by
  have horder : Order systemsAB ["Incus", "MicroCeph"] visitsBA := by
    refine ⟨List.Perm.swap _ _ _, ?_, ?_⟩
    · simp [visitsBA, List.Perm.swap]
    · intro v hv s
      rcases mem_pair.mp hv with rfl | rfl
      · exact reverse_perm _
      · exact reverse_perm _
  refine clustersConflict_iff horder ?_
  intro e he s m hm
  have hcases : ∀ addr : String, addr ≠ "" →
      ∀ m ∈ ((SystemServices.mk [("Incus", membersAB addr)]).members s).entries, m.2 ≠ "" := by
    intro addr haddr m hm
    by_cases hs : "Incus" = s
    · simp [SystemServices.members, get_cons, hs, membersAB] at hm
      rcases hm with rfl | rfl
      · simp
      · exact haddr
    · simp [SystemServices.members, get_cons, hs, Members.none] at hm
  rcases mem_pair.mp he with rfl | rfl
  · exact hcases _ (by simp) m hm
  · exact hcases _ (by simp) m hm

/-! ### The disks every system sees -/

namespace SystemInformation

variable (info : SystemInformation)

def reports (path : String) : ℕ :=
  (((info.availableDisks.map (·.2)).filter canBeShared).map formatDiskPath).count path

def Sees (path : String) : Prop :=
  ∃ e ∈ info.availableDisks, canBeShared e.2 = true ∧ formatDiskPath e.2 = path

theorem sees_iff (path : String) : info.Sees path ↔ 0 < info.reports path := by
  rw [reports, count_pos_iff]
  simp only [Sees, List.mem_map, mem_filter]
  constructor
  · rintro ⟨e, he, hshared, hpath⟩
    exact ⟨e.2, ⟨⟨e, he, rfl⟩, hshared⟩, hpath⟩
  · rintro ⟨d, ⟨⟨e, he, rfl⟩, hshared⟩, hpath⟩
    exact ⟨e, he, hshared, hpath⟩

end SystemInformation

variable (state : OrdMap String SystemInformation)

def allReports (path : String) : ℕ :=
  (state.map fun e => e.2.reports path).sum

theorem paths_sharedDisks :
    ((sharedDisks state).map formatDiskPath).Pairwise (· < ·) ∧
      ∀ path, path ∈ (sharedDisks state).map formatDiskPath ↔
        0 < allReports state path ∧ allReports state path = state.length := by
  have hcount : ∀ path, ((state.flatMap fun e => (e.2.availableDisks.map (·.2)).filter canBeShared).map
      formatDiskPath).count path = allReports state path := by
    intro path
    rw [map_flatMap, count_flatMap]
    rfl
  set disks := state.flatMap fun e => (e.2.availableDisks.map (·.2)).filter canBeShared with hdisks
  set kept := (disks.map formatDiskPath).dedup.filter fun path =>
    (disks.map formatDiskPath).count path = state.length with hkept
  have hmem : ∀ path, path ∈ kept ↔ 0 < allReports state path ∧ allReports state path = state.length := by
    intro path
    rw [hkept, mem_filter, mem_dedup, ← count_pos_iff, hcount, decide_eq_true_eq]
  -- Each path is that of the disk found for it.
  have hfound : ∀ l : List String, (∀ path ∈ l, path ∈ disks.map formatDiskPath) →
      (l.filterMap fun path => disks.find? fun disk =>
        formatDiskPath disk = path).map formatDiskPath = l := by
    intro l hl
    induction l with
    | nil => rfl
    | cons path l ih =>
      obtain ⟨d, hd, hpath⟩ := List.mem_map.mp (hl path mem_cons_self)
      cases hfind : disks.find? fun disk => formatDiskPath disk = path with
      | none => exact absurd (decide_eq_true hpath) (List.find?_eq_none.mp hfind d hd)
      | some x =>
        have hx : formatDiskPath x = path := by simpa using List.find?_some hfind
        rw [filterMap_cons, hfind, map_cons, ih fun p hp => hl p (mem_cons_of_mem _ hp), hx]
  have hpaths : (sharedDisks state).map formatDiskPath = kept.insertionSort (· ≤ ·) := by
    show List.map formatDiskPath (List.insertionSort _ (kept.filterMap _)) = _
    rw [map_insertionSort _ (· ≤ ·) formatDiskPath _ fun _ _ _ _ => Iff.rfl, hfound]
    intro path hpath
    exact mem_dedup.mp (mem_filter.mp (hkept ▸ hpath)).1
  rw [hpaths]
  constructor
  · have hnodup : (kept.insertionSort (· ≤ ·)).Nodup :=
      (perm_insertionSort _ kept).nodup_iff.mpr ((nodup_dedup _).filter _)
    have hsorted := List.pairwise_insertionSort (· ≤ ·) kept
    exact (hsorted.and hnodup).imp fun h => lt_of_le_of_ne h.1 h.2
  · intro path
    rw [mem_insertionSort]
    exact hmem path

/-- What is returned is what every one of the systems reports, sorted by path and each once. -/
def SharedByAll : Prop :=
  ((sharedDisks state).map formatDiskPath).Pairwise (· < ·) ∧
    ∀ path, path ∈ (sharedDisks state).map formatDiskPath ↔ state ≠ [] ∧ ∀ e ∈ state, e.2.Sees path

/-- No system's second disk under a by-id path makes up for a system that does not have it, or puts
the count past the systems that do: all have one, or some has none and the others' disks are not as
many as the systems. -/
def NoneMadeUp : Prop :=
  ∀ path, (∀ e ∈ state, e.2.reports path = 1) ∨
    (∃ e ∈ state, e.2.reports path = 0) ∧ allReports state path ≠ state.length

theorem sum_eq_length_iff {α : Type*} {f : α → ℕ} {l : List α} (h : ∀ a ∈ l, 0 < f a) :
    (l.map f).sum = l.length ↔ ∀ a ∈ l, f a = 1 := by
  have hle : ∀ l : List α, (∀ a ∈ l, 0 < f a) → l.length ≤ (l.map f).sum := by
    intro l hl
    induction l with
    | nil => exact le_rfl
    | cons a l ih =>
      have ha := hl a mem_cons_self
      have hrest := ih fun b hb => hl b (mem_cons_of_mem _ hb)
      rw [map_cons, sum_cons, length_cons]
      omega
  induction l with
  | nil => exact iff_of_true rfl fun _ ha => nomatch ha
  | cons a l ih =>
    have ha := h a mem_cons_self
    have hl := fun b hb => h b (mem_cons_of_mem _ hb)
    have hrest := hle l hl
    rw [map_cons, sum_cons, length_cons, forall_mem_cons]
    constructor
    · intro hsum
      exact ⟨by omega, (ih hl).mp (by omega)⟩
    · rintro ⟨hone, hall⟩
      have hsum := (ih hl).mpr hall
      omega

/-- `sharedDisks` returns what every system sees exactly where no disks are made up for. -/
theorem sharedByAll_iff (state : OrdMap String SystemInformation) : SharedByAll state ↔ NoneMadeUp state := by
  obtain ⟨hsorted, hmem⟩ := paths_sharedDisks state
  have hpos : ∀ path, (∀ e ∈ state, e.2.Sees path) ↔ ∀ e ∈ state, 0 < e.2.reports path :=
    fun path => forall₂_congr fun e _ => e.2.sees_iff path
  constructor
  · rintro ⟨-, h⟩ path
    by_cases hall : ∀ e ∈ state, e.2.Sees path
    · refine .inl ?_
      by_cases hnil : state = []
      · rw [hnil]
        exact fun _ he => nomatch he
      · have hlength := ((hmem path).mp ((h path).mpr ⟨hnil, hall⟩)).2
        exact (sum_eq_length_iff ((hpos path).mp hall)).mp hlength
    · obtain ⟨e, he, hno⟩ := not_forall₂.mp hall
      rw [e.2.sees_iff path, not_lt, Nat.le_zero] at hno
      refine .inr ⟨⟨e, he, hno⟩, fun hlength => hall ((h path).mp ((hmem path).mpr ⟨?_, hlength⟩)).2⟩
      rw [hlength]
      exact length_pos_of_mem he
  · refine fun h => ⟨hsorted, fun path => ?_⟩
    rw [hmem, hpos]
    rcases h path with hone | ⟨⟨e, he, hzero⟩, hne⟩
    · have hall : ∀ e ∈ state, 0 < e.2.reports path := fun e he => (hone e he).symm ▸ Nat.one_pos
      have hlength : allReports state path = state.length := (sum_eq_length_iff hall).mpr hone
      rw [hlength, length_pos_iff]
      exact ⟨fun hyes => ⟨hyes.1, hall⟩, fun hyes => ⟨hyes.1, rfl⟩⟩
    · refine iff_of_false (fun hyes => hne hyes.2) fun hyes => ?_
      exact absurd hzero (hyes.2 e he).ne'

def lunDisk (id : String) : Disk := ⟨id, "disk", "wwn-0x6001405abc", ""⟩

def systemWith (disks : OrdMap String Disk) : SystemInformation := ⟨disks, none, none, none, [], false⟩

/-- The LUN that only `a` sees, twice, is returned; the one that both see, `a` twice, is not. -/
theorem sharedDisks_counts_twice :
    ¬ SharedByAll [("a", systemWith [("sdb", lunDisk "sdb"), ("sdc", lunDisk "sdc")]), ("b", systemWith [])] ∧
      ¬ SharedByAll [("a", systemWith [("sdb", lunDisk "sdb"), ("sdc", lunDisk "sdc")]),
        ("b", systemWith [("sdb", lunDisk "sdb")])] := by
  constructor
  · rintro ⟨-, h⟩
    have hseen := ((h "/dev/disk/by-id/wwn-0x6001405abc").mp ((paths_sharedDisks _).2 _ |>.mpr (by decide))).2
    obtain ⟨e, he, -⟩ := hseen ("b", systemWith []) (by decide)
    cases he
  · rintro ⟨-, h⟩
    have hkept := (h "/dev/disk/by-id/wwn-0x6001405abc").mpr ⟨by decide, ?_⟩
    · exact absurd ((paths_sharedDisks _).2 _ |>.mp hkept).2 (by decide)
    · intro e he
      rw [e.2.sees_iff]
      rcases mem_pair.mp he with rfl | rfl
      · decide
      · decide

end IncusCloud.Firecloud
