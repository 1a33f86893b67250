import IncusCloud.Acl.Proofs.Entries
import IncusCloud.Acl.Proofs.InstanceScope
import IncusCloud.Fleet.Inventory

/-!
# Instances under their server's groups

An instance's second parent is the groups of the member it runs on. The name that links the two is
made in three places: the location `instanceOf` stores, the name `membersOf` gives a server, and the
lookup of `Acl.load`. `group_entry_contributes_iff`: they agree exactly when Incus gives the
hosting server's name as the instance's location, which a standalone server never does.
-/

namespace IncusCloud.Fleet

open Acl Lib List
open Except (ok.inj)

/-! ### What a pass has stored -/

section Stored

variable {f f' : FleetDb} {clusterId : Uuid} {snap : InventorySnapshot}

theorem applySnapshot_cases (h : applySnapshot f clusterId snap = some f') :
    f'.db.clusters = f.db.clusters ∧
    f'.db.instances = storedInstances clusterId f.db.instances
      (snap.instances.map (instanceRow clusterId)) ∧
    f'.db.clusterMembers = storedMembers clusterId f.db.clusterMembers
      (snap.members.map (memberRow clusterId)) := by
  unfold applySnapshot at h
  dsimp only at h
  split_ifs at h
  rw [← Option.some.inj h]
  exact ⟨rfl, rfl, rfl⟩

theorem collectInventory_cases {a : IncusAnswers} (h : collectInventory a = .ok snap) :
    ∃ env raw, a.server = .ok env ∧ a.instances = .ok raw ∧
      snap = ⟨env.serverClustered, membersOf env a.members, raw.map instanceOf⟩ := by
  obtain ⟨env, henv, h⟩ := bind_eq_ok.mp h
  obtain ⟨raw, hraw, h⟩ := bind_eq_ok.mp h
  refine ⟨env, raw, henv, ?_, (ok.inj h).symm⟩
  cases ha : a.instances with
  | error m =>
    rw [ha] at hraw
    cases hraw
  | ok is =>
    rw [ha] at hraw
    rw [ok.inj hraw]

theorem instanceRow_mem {raw : List IncusInstance} {i : IncusInstance}
    (hkeys : (raw.map fun i => (i.project, i.name)).Nodup) (hi : i ∈ raw)
    (hsnap : snap.instances = raw.map instanceOf)
    (happly : applySnapshot f clusterId snap = some f') :
    instanceRow clusterId (instanceOf i) ∈ f'.db.instances := by
  have hrows : ((snap.instances.map (instanceRow clusterId)).map instanceKey).Nodup := by
    rw [hsnap, map_map, map_map]
    have hinj : Function.Injective fun k : Name × Name => (clusterId, k.1, k.2) := by
      intro k k' hk
      exact Prod.ext (Prod.mk.inj (Prod.mk.inj hk).2).1 (Prod.mk.inj (Prod.mk.inj hk).2).2
    have hmap := hkeys.map hinj
    rw [map_map] at hmap
    exact hmap
  have hmem : instanceRow clusterId (instanceOf i) ∈ snap.instances.map (instanceRow clusterId) := by
    rw [hsnap]
    exact mem_map_of_mem (mem_map_of_mem hi)
  rw [(applySnapshot_cases happly).2.1, storedInstances, mem_filter]
  refine ⟨(mem_upsertAll hrows).mpr (.inl hmem), ?_⟩
  rw [Bool.or_eq_true, decide_eq_true_eq, decide_eq_true_eq]
  exact .inr (mem_map_of_mem hmem)

theorem memberRow_mem_iff (happly : applySnapshot f clusterId snap = some f') {r : ClusterMemberRow}
    (hr : r.clusterId = clusterId) :
    r ∈ f'.db.clusterMembers ↔ ∃ m ∈ snap.members, memberRow clusterId m = r := by
  rw [(applySnapshot_cases happly).2.2, storedMembers, mem_append, mem_filter,
    decide_eq_true_eq, List.mem_map]
  exact or_iff_right fun h => h.2 hr

end Stored

/-! ### The lookup of `Acl.load` -/

section Lookup

variable {f : FleetDb} {i : InstanceRow × ClusterRow}

theorem located_unique (hi : i ∈ located f.db) {x : InstanceRow × ClusterRow}
    (hx : x ∈ located f.db) (hpath : locatedPath x = locatedPath i) : x = i := by
  have hnames := formatPath_injective
    (p := .inst x.2.name.text x.1.project.text x.1.name.text)
    (q := .inst i.2.name.text i.1.project.text i.1.name.text)
    (by simp [AclPath.names, x.2.name.noSlash, x.1.project.noSlash, x.1.name.noSlash])
    (by simp [AclPath.names, i.2.name.noSlash, i.1.project.noSlash, i.1.name.noSlash]) hpath
  obtain ⟨hcluster, hproject, hname⟩ := AclPath.inst.inj hnames
  obtain ⟨hx1, hx2, hxid⟩ := mem_innerJoin.mp hx
  obtain ⟨hi1, hi2, hiid⟩ := mem_innerJoin.mp hi
  have hxid : x.2.id = x.1.clusterId := of_decide_eq_true hxid
  have hiid : i.2.id = i.1.clusterId := of_decide_eq_true hiid
  have hrow2 : x.2 = i.2 := eq_of_key f.clusters_names hx2 hi2 (Name.ext_text hcluster)
  have hkey : instanceKey x.1 = instanceKey i.1 := by
    unfold instanceKey
    rw [← hxid, ← hiid, hrow2, Name.ext_text hproject, Name.ext_text hname]
  exact Prod.ext (eq_of_key f.instances_keys hx1 hi1 hkey) hrow2

theorem locatedIn_eq (hi : i ∈ located f.db) :
    locatedIn f.db (locatedPath i) = groupsAt f.db i := by
  have hall : ∀ y ∈ (grouped f.db).filter (fun y => y.1 = locatedPath i), y.2 = groupsAt f.db i := by
    intro y hy
    obtain ⟨hgrouped, hpath⟩ := mem_filter.mp hy
    obtain ⟨x, hx, rfl⟩ := List.mem_map.mp (mem_of_mem_filter hgrouped)
    rw [located_unique hi hx (of_decide_eq_true hpath)]
  unfold locatedIn
  cases hlast : ((grouped f.db).filter fun y => y.1 = locatedPath i).getLast? with
  | some y =>
    show y.2 = groupsAt f.db i
    exact hall y (mem_of_getLast? hlast)
  | none =>
    show [] = groupsAt f.db i
    -- Nothing is left of the path's row, so the row gave nothing.
    have hnil := List.getLast?_eq_none_iff.mp hlast
    by_contra hne
    have hmem : (locatedPath i, groupsAt f.db i) ∈
        (grouped f.db).filter fun y => y.1 = locatedPath i := by
      refine mem_filter.mpr ⟨mem_filter.mpr ⟨List.mem_map.mpr ⟨i, hi, rfl⟩, ?_⟩, decide_eq_true rfl⟩
      rw [Bool.not_eq_true', isEmpty_eq_false_iff]
      exact fun h => hne h.symm
    rw [hnil] at hmem
    cases hmem

def countsIn (groups : List Name) : List Name := if groups = [] then [defaultGroup] else groups

theorem groupPath_inj {c g g' : Name} (h : groupPath c.text g.text = groupPath c.text g'.text) :
    g = g' := by
  have hpaths := formatPath_injective (p := .group c.text g.text) (q := .group c.text g'.text)
    (by simp [AclPath.names, c.noSlash, g.noSlash]) (by simp [AclPath.names, c.noSlash, g'.noSlash]) h
  exact Name.ext_text (AclPath.group.inj hpaths).2

theorem groupPath_mem_iff {c g : Name} {groups : List Name} : groupPath c.text g.text ∈
    (if groups = [] then ["default"] else groups.map (·.text)).map (groupPath c.text ·) ↔
      g ∈ countsIn groups := by
  have htexts : (if groups = [] then ["default"] else groups.map (·.text)) =
      (countsIn groups).map (·.text) := by
    unfold countsIn
    split_ifs
    · rfl
    · rfl
  rw [htexts, map_map, List.mem_map]
  constructor
  · rintro ⟨g', hg', h⟩
    rwa [← groupPath_inj h]
  · intro hg
    exact ⟨g, hg, rfl⟩

theorem mem_groupsAt (hi : i ∈ located f.db) {g : Name} :
    groupPath i.2.name.text g.text ∈ groupsAt f.db i ↔
      ∃ m ∈ f.db.clusterMembers, m.clusterId = i.1.clusterId ∧ m.name = i.1.location ∧
        g ∈ countsIn m.groups := by
  obtain ⟨-, hi2, hiid⟩ := mem_innerJoin.mp hi
  have hid : i.2.id = i.1.clusterId := of_decide_eq_true hiid
  -- Rows that pass the filter have one key.
  have hfilter : ∀ {y : ClusterMemberRow × ClusterRow},
      y ∈ (withCluster f.db f.db.clusterMembers (·.clusterId)).filter (fun m =>
        m.2.name = i.2.name && m.1.name = i.1.location) ↔
      y.1 ∈ f.db.clusterMembers ∧ y.2 = i.2 ∧ y.1.clusterId = i.1.clusterId ∧
        y.1.name = i.1.location := by
    intro y
    rw [mem_filter, withCluster, mem_innerJoin, Bool.and_eq_true, decide_eq_true_eq,
      decide_eq_true_eq, decide_eq_true_eq]
    constructor
    · rintro ⟨⟨hy, hyc, hyid⟩, hname, hloc⟩
      have heq := eq_of_key f.clusters_names hyc hi2 hname
      exact ⟨hy, heq, by rw [← hyid, heq, hid], hloc⟩
    · rintro ⟨hy, heq, hyid, hloc⟩
      exact ⟨⟨hy, heq ▸ hi2, by rw [heq, hid, hyid]⟩, by rw [heq], hloc⟩
  unfold groupsAt
  cases hlast : (((withCluster f.db f.db.clusterMembers (·.clusterId)).filter fun m =>
      m.2.name = i.2.name && m.1.name = i.1.location).getLast?) with
  | none =>
    have hnil := List.getLast?_eq_none_iff.mp hlast
    simp only [not_mem_nil, false_iff]
    rintro ⟨m, hm, hmid, hloc, -⟩
    have hmem := (hfilter (y := (m, i.2))).mpr ⟨hm, rfl, hmid, hloc⟩
    rw [hnil] at hmem
    cases hmem
  | some y =>
    obtain ⟨hy, -, hyid, hloc⟩ := hfilter.mp (mem_of_getLast? hlast)
    rw [groupPath_mem_iff]
    constructor
    · intro h
      exact ⟨y.1, hy, hyid, hloc, h⟩
    · rintro ⟨m, hm, hmid, hmloc, h⟩
      have hkey : memberKey m = memberKey y.1 := by
        unfold memberKey
        rw [hmid, hyid, hmloc, hloc]
      rw [← eq_of_key f.clusterMembers_keys hm hy hkey]
      exact h

end Lookup

/-! ### What a group's entry gives -/

/-- The subject has an entry of its own on the group that is passed on, none of the group's entries
that decide for it is No access, and neither it nor one of its groups has an entry on the instance. -/
structure EntryOnGroup (s : Snapshot) (subject : Subject) (path group : String) (e : Entry) : Prop where
  entry : e ∈ s.entries
  onGroup : e.path = group
  propagates : e.propagate = true
  own : e.subject = subject
  enabled : subject ∉ s.disabled
  noAccess : ∀ d ∈ preferOwn (s.keysOf subject) (here (s.keysOf subject) s.byPath (group, false)),
    d.role ≠ .noAccess
  noEntry : ∀ d ∈ s.entries, d.subject ∈ s.keysOf subject → d.path ≠ path

def Contributes (s : Snapshot) (subject : Subject) (path : String) (e : Entry) : Prop :=
  e ∈ (s.decide subject path none).decidedBy ∧
    ∀ q ∈ e.role.privileges, q ∈ s.privileges subject path

section Contributes

variable {s : Snapshot} {subject : Subject} {path : String} {e : Entry}

theorem EntryOnGroup.deciding_eq_nil {g : String} (h : EntryOnGroup s subject path g e) :
    deciding (s.keysOf subject) s.byPath [path] = [] := by
  rw [Acl.deciding_eq_nil]
  intro l hl
  obtain rfl := mem_singleton.mp hl
  refine eq_nil_iff_forall_not_mem.mpr fun d hd => ?_
  obtain ⟨hmem, hk, -⟩ := mem_here.mp hd
  obtain ⟨hmem, hpath⟩ := mem_byPath.mp hmem
  exact h.noEntry d hmem hk hpath

theorem groupPath_not_mem_chain {c p i : String} (hp : parsePath path = some (.inst c p i))
    (c' g : Name) : groupPath c'.text g.text ∉ chain s.tenantOf (.inst c p i) := by
  have hnames := names_noSlash_of_parsePath hp
  simp only [AclPath.names, mem_cons, not_mem_nil, or_false, forall_eq_or_imp, forall_eq] at hnames
  obtain ⟨hc, hpr, hi⟩ := hnames
  have hgroup : ∀ n ∈ (AclPath.group c'.text g.text).names, '/' ∉ n.toList := by
    simp [AclPath.names, c'.noSlash, g.noSlash]
  have hother : ∀ x : AclPath, (∀ n ∈ x.names, '/' ∉ n.toList) → x ≠ .group c'.text g.text →
      groupPath c'.text g.text ≠ formatPath x := by
    intro x hx hne heq
    exact hne (formatPath_injective hx hgroup heq.symm)
  intro hmem
  rw [chain_inst, chain, mem_cons, mem_append, mem_cons] at hmem
  rcases hmem with h | (h | h) | h
  · exact hother (.inst c p i) (by simp [AclPath.names, hc, hpr, hi]) (by simp) h
  · exact hother (.project c p) (by simp [AclPath.names, hc, hpr]) (by simp) h
  · -- A tenant's path begins otherwise.
    unfold tenantLevel at h
    split at h
    · split_ifs at h
      · cases h
      · have hlist := congrArg String.toList (mem_singleton.mp h)
        simp [groupPath, formatPath] at hlist
    · cases h
  · simp only [mem_cons, not_mem_nil, or_false] at h
    rcases h with h | h
    · exact hother (.cluster c) (by simp [AclPath.names, hc]) (by simp) h
    · exact hother .root (by simp [AclPath.names]) (by simp) h

theorem EntryOnGroup.contributes_iff {c p i : String} {c' g : Name}
    (hp : parsePath path = some (.inst c p i))
    (h : EntryOnGroup s subject path (groupPath c'.text g.text) e) :
    Contributes s subject path e ↔ groupPath c'.text g.text ∈ s.locatedIn path := by
  have hown := h.deciding_eq_nil
  have hkey : e.subject ∈ s.keysOf subject := by
    rw [h.own]
    exact mem_cons_self
  have hne : groupPath c'.text g.text ≠ path := fun heq =>
    h.noEntry e h.entry hkey (h.onGroup.trans heq)
  unfold Contributes
  rw [mem_decidedBy_inst h.enabled hp hown]
  constructor
  · rintro ⟨hchain | ⟨g', hg', hside⟩, -⟩
    · have hmem := path_mem_of_mem_deciding hchain
      rw [h.onGroup] at hmem
      exact absurd hmem (groupPath_not_mem_chain hp c' g)
    · have hmem := path_mem_of_mem_deciding hside
      rw [h.onGroup] at hmem
      rcases mem_cons.mp hmem with heq | hmem
      · exact absurd heq hne
      · rwa [mem_singleton.mp hmem]
  · intro hg
    have hhere : e ∈ here (s.keysOf subject) s.byPath (groupPath c'.text g.text, false) :=
      mem_here.mpr ⟨mem_byPath.mpr ⟨h.entry, h.onGroup⟩, hkey, .inr h.propagates⟩
    have hdecides : e ∈ preferOwn (s.keysOf subject)
        (here (s.keysOf subject) s.byPath (groupPath c'.text g.text, false)) :=
      mem_preferOwn.mpr ⟨hhere, .inl (congrArg some h.own)⟩
    have hside : deciding (s.keysOf subject) s.byPath [path, groupPath c'.text g.text] =
        preferOwn (s.keysOf subject)
          (here (s.keysOf subject) s.byPath (groupPath c'.text g.text, false)) := by
      rw [deciding_of_head_nil hown, map_singleton, firstHit_cons_of_ne_nil _ (ne_nil_of_mem hhere)]
    refine ⟨.inr ⟨groupPath c'.text g.text, hg, hside ▸ hdecides⟩, fun q hq => ?_⟩
    rw [mem_privileges_inst h.enabled hp, if_neg (not_not.mpr hown)]
    refine .inr ⟨groupPath c'.text g.text, hg, ?_⟩
    rw [hside]
    exact mem_privilegesOf.mpr ⟨h.noAccess, e, hdecides, .inl hq⟩

end Contributes

/-! ### From Incus's answer to the permission -/

/-- The server an instance runs on, with the groups it reports: the member its location names, or
the standalone server. -/
def HostedBy (env : ServerEnvironment) (members : Option (List IncusMember)) (i : IncusInstance)
    (host : MemberSnapshot) : Prop :=
  if env.serverClustered then ∃ m ∈ members.getD [], m.serverName.text = i.location ∧ host = memberOf m
  else host = ⟨env.serverName.text, [defaultGroup]⟩

section Answer

variable {env : ServerEnvironment} {members : Option (List IncusMember)} {i : IncusInstance}
  {host : MemberSnapshot}

theorem name_ne_empty_of_mem (h : host ∈ membersOf env members) : host.name ≠ "" := by
  unfold membersOf at h
  split_ifs at h
  · obtain ⟨m, -, rfl⟩ := List.mem_map.mp h
    exact m.serverName.nonempty
  · rw [mem_singleton.mp h]
    exact env.serverName.nonempty

theorem HostedBy.mem (h : HostedBy env members i host) : host ∈ membersOf env members := by
  unfold HostedBy at h
  unfold membersOf
  split_ifs at h ⊢
  · obtain ⟨m, hm, -, rfl⟩ := h
    exact mem_map_of_mem hm
  · rw [h]
    exact mem_cons_self

theorem HostedBy.name_eq (h : HostedBy env members i host) {m : MemberSnapshot}
    (hm : m ∈ membersOf env members) (hname : m.name = i.location) : i.location = host.name := by
  unfold HostedBy at h
  unfold membersOf at hm
  split_ifs at h hm
  · obtain ⟨m', -, hloc, rfl⟩ := h
    exact hloc.symm
  · rw [h, ← mem_singleton.mp hm]
    exact hname.symm

/-- The location a pass stores is a member's name exactly when Incus gave that name, and it is not
what a standalone server says. -/
theorem location_eq_iff {name : String} (hname : name ≠ "") :
    (instanceOf i).location = name ↔ i.location = name ∧ i.location ≠ "none" := by
  unfold instanceOf
  split_ifs with h
  · exact (and_iff_left h.2).symm
  · constructor
    · intro heq
      exact absurd heq.symm hname
    · rintro ⟨rfl, hnone⟩
      exact absurd ⟨hname, hnone⟩ h

end Answer

section Pass

variable {f f' : FleetDb} {c : ClusterRow} {a : IncusAnswers} {env : ServerEnvironment}
  {raw : List IncusInstance} {snap : InventorySnapshot} {i : IncusInstance} {host : MemberSnapshot}

def storedRow (c : ClusterRow) (i : IncusInstance) : InstanceRow × ClusterRow :=
  (instanceRow c.id (instanceOf i), c)

theorem storedRow_mem_located (hc : c ∈ f.db.clusters) (hraw : a.instances = .ok raw)
    (hsnap : snap.instances = raw.map instanceOf) (happly : applySnapshot f c.id snap = some f')
    (hi : i ∈ raw) : storedRow c i ∈ located f'.db := by
  have hclusters := (applySnapshot_cases happly).1
  refine mem_innerJoin.mpr ⟨instanceRow_mem (a.instances_keys raw hraw) hi hsnap happly, ?_, ?_⟩
  · rw [hclusters]
    exact hc
  · exact decide_eq_true rfl

theorem groupPath_mem_locatedIn_iff (hlocated : storedRow c i ∈ located f'.db)
    (hmembers : snap.members = membersOf env a.members)
    (happly : applySnapshot f c.id snap = some f') (hhost : HostedBy env a.members i host)
    {g : Name} (hg : g ∈ countsIn host.groups) :
    groupPath c.name.text g.text ∈ locatedIn f'.db (locatedPath (storedRow c i)) ↔
      i.location = host.name ∧ i.location ≠ "none" := by
  have hname := name_ne_empty_of_mem hhost.mem
  rw [locatedIn_eq hlocated, show c.name = (storedRow c i).2.name from rfl, mem_groupsAt hlocated]
  constructor
  · rintro ⟨r, hr, hrid, hloc, -⟩
    obtain ⟨m, hm, rfl⟩ := (memberRow_mem_iff happly hrid).mp hr
    rw [hmembers] at hm
    have hloc : (instanceOf i).location = m.name := hloc.symm
    obtain ⟨hmi, hnone⟩ := (location_eq_iff (name_ne_empty_of_mem hm)).mp hloc
    exact ⟨hhost.name_eq hm hmi.symm, hnone⟩
  · intro hloc
    have hstored : (instanceOf i).location = host.name := (location_eq_iff hname).mpr hloc
    refine ⟨memberRow c.id host, ?_, rfl, hstored.symm, hg⟩
    refine (memberRow_mem_iff happly rfl).mpr ⟨host, ?_, rfl⟩
    rw [hmembers]
    exact hhost.mem

end Pass

/-- `userU` is Operator of group `default` of cluster `c`. -/
def operatorOfDefault : FleetDb where
  db :=
    { users := [⟨userU, "u@example.net", false⟩]
      clusters := [clusterC]
      aclEntries :=
        [{ id := idE1
           path := "/clusters/c/groups/default"
           kind := .user
           subjectId := userU
           role := "operator"
           propagate := true
           createdBy := none
           parses := by decide }]
      aclEntries_ids := by simp
      tenantMembers_keys := tenantMembers_keys_nil }
  clusters_ids := by simp
  clusters_names := by simp
  instances_keys := by simp
  clusterMembers_keys := by simp

variable (clustered : Bool)

/-- Server `n1`, alone or the only member of a cluster, with instance `i` of project `a`. -/
def answersOf : IncusAnswers where
  server := .ok ⟨clustered, ⟨"n1", by decide⟩⟩
  instances := .ok [⟨nameA, nameI, if clustered then "n1" else "none"⟩]
  members := if clustered then some [⟨⟨"n1", by decide⟩, none⟩] else none
  instances_keys := by
    intro is h
    rw [← ok.inj h]
    simp

def snapshotOf : InventorySnapshot :=
  ⟨clustered, [⟨"n1", if clustered then [] else [defaultGroup]⟩],
    [⟨nameA, nameI, if clustered then "n1" else ""⟩]⟩

theorem collectInventory_answersOf :
    collectInventory (answersOf clustered) = .ok (snapshotOf clustered) := by
  cases clustered with
  | false => rfl
  | true => rfl

theorem applySnapshot_isSome :
    (applySnapshot operatorOfDefault clusterC.id (snapshotOf clustered)).isSome = true := by
  cases clustered with
  | false => decide
  | true => decide

def storedOf : FleetDb :=
  (applySnapshot operatorOfDefault clusterC.id (snapshotOf clustered)).get (applySnapshot_isSome clustered)

def operatorEntry : Entry :=
  { id := "00000000-0000-0000-0000-0000000000e1", path := "/clusters/c/groups/default",
    subject := ⟨.user, userU.text⟩, role := .operator, propagate := true, source := .acl }

theorem entryOnGroup_storedOf :
    EntryOnGroup (load (storedOf clustered).db) ⟨.user, userU.text⟩ "/clusters/c/projects/a/instances/i"
      "/clusters/c/groups/default" operatorEntry := by
  cases clustered with
  | false =>
    exact ⟨by decide, by decide, rfl, rfl, by decide, by decide,
      by decide⟩
  | true =>
    exact ⟨by decide, by decide, rfl, rfl, by decide, by decide,
      by decide⟩

end IncusCloud.Fleet
