import IncusCloud.Acl.Proofs.Entries
import IncusCloud.Api.AclEntries

/-!
# Changes that reach above the caller

`needOutrank` compares what the subjects of a changed entry hold on the entry's path, and above it,
with what the caller holds there. `change_never_above_iff` says when that is enough: on the path
itself it always is (unless the body spells the subject's id in capitals), and on the objects below,
which nothing compares, it is if the caller happens to hold what the change takes there. A tenant's
entry decides the tenant's projects on every cluster (`change_above_tenant_admin`).

A `POST` or `DELETE` that succeeds has passed its checks, and has added or removed one row.
-/

open List Option

namespace IncusCloud.Api

open Acl
open Lib (need_bind_eq_ok found_bind_eq_ok bind_eq_ok)

variable {p : Principal} {body : EntryBody} {row : AclEntryRow} {db' : Db} {path : String}

/-- The row that the checks of `POST` answer is what the body asks for, and whoever it reaches is
not above the caller. -/
structure Checked (s : Snapshot) (db : Db) (p : Principal) (body : EntryBody) (id : Uuid)
    (row : AclEntryRow) : Prop where
  id : row.id = id
  path : row.path = body.path
  kind : row.kind = body.kind
  subjectId : row.subjectId.text = canonical body.id
  role : row.role = body.role
  propagate : row.propagate = body.propagate
  isRole : ∃ role, isRoleId row.role = some role
  uuid : isUuid body.id = true
  outrank : needOutrank s p body.path (reachOf db ⟨body.kind, body.id⟩) = .ok ()

variable {db : Db} {s : Snapshot}

theorem createChecks_ok {id : Uuid} (h : createChecks s db p body id = .ok row) :
    Checked s db p body id row := by
  unfold createChecks at h
  simp only [found_bind_eq_ok, need_bind_eq_ok] at h
  obtain ⟨path, hpath, -, role, hrole, -, h⟩ := h
  obtain ⟨-, -, h⟩ := bind_eq_ok.mp h
  obtain ⟨hsubject, h⟩ := need_bind_eq_ok.mp h
  obtain ⟨-, -, h⟩ := bind_eq_ok.mp h
  obtain ⟨⟨⟩, hrank, h⟩ := bind_eq_ok.mp h
  obtain ⟨-, h⟩ := need_bind_eq_ok.mp h
  obtain ⟨sid, hsid, h⟩ := found_bind_eq_ok.mp h
  obtain rfl := Except.ok.inj h
  have hid : isUuid body.id = true := by
    unfold subjectExists at hsubject
    rw [Bool.and_eq_true] at hsubject
    exact hsubject.1
  exact ⟨rfl, rfl, rfl, Uuid.text_of_ofText hsid, rfl, rfl, ⟨role, hrole⟩, hid, hrank⟩

theorem Checked.entryOf_eq {id : Uuid} (h : Checked s db p body id row) (role : RoleId) :
    entryOf row role =
      ⟨id.text, body.path, ⟨body.kind, canonical body.id⟩, role, body.propagate, .acl⟩ := by
  simp only [entryOf, entrySubject, h.id, h.path, h.kind, h.subjectId, h.propagate]

theorem insertEntry_ok (h : insertEntry db row = .ok db') :
    ∃ hfree : free db row, db' = withEntry db row hfree := by
  unfold insertEntry at h
  split_ifs at h with hfree
  obtain ⟨-, h⟩ := need_bind_eq_ok.mp h
  exact ⟨hfree, (Except.ok.inj h).symm⟩

theorem createEntry_ok {id : Uuid}
    (h : createEntry s db p body id = .ok db') :
    ∃ (row : AclEntryRow) (hfree : free db row),
      Checked s db p body id row ∧ db' = withEntry db row hfree := by
  obtain ⟨row, hchecks, h⟩ := bind_eq_ok.mp h
  obtain ⟨-, -, h⟩ := bind_eq_ok.mp h
  obtain ⟨hfree, h⟩ := insertEntry_ok h
  exact ⟨row, hfree, createChecks_ok hchecks, h⟩

variable {id : String}

theorem removeEntry_ok
    (h : removeEntry s db p id = .ok db') :
    ∃ (row : AclEntryRow) (role : RoleId), row ∈ db.aclEntries ∧ row.id.text = canonical id ∧
      db' = deleteEntry db row ∧ isRoleId row.role = some role ∧
        needOutrank s p row.path (reachOf db (entrySubject row) ++
          row.createdBy.toList.map fun u => ⟨.user, u.text⟩) = .ok () := by
  obtain ⟨row, hchecks, h⟩ := bind_eq_ok.mp h
  obtain ⟨-, -, h⟩ := bind_eq_ok.mp h
  obtain rfl := Except.ok.inj h
  unfold removeChecks at hchecks
  simp only [found_bind_eq_ok, need_bind_eq_ok] at hchecks
  obtain ⟨-, row', hrow, role, hrole, hchecks⟩ := hchecks
  obtain ⟨-, -, hchecks⟩ := bind_eq_ok.mp hchecks
  obtain ⟨⟨⟩, hrank, hchecks⟩ := bind_eq_ok.mp hchecks
  obtain rfl := Except.ok.inj hchecks
  refine ⟨row', role, mem_of_find?_eq_some hrow, ?_, rfl, hrole, hrank⟩
  simpa using List.find?_some hrow

theorem mem_aclEntries_deleteEntry {e : AclEntryRow} :
    e ∈ (deleteEntry db row).aclEntries ↔ e ∈ db.aclEntries ∧ e.id ≠ row.id := by
  change e ∈ db.aclEntries.filter _ ↔ _
  rw [mem_filter, decide_eq_true_eq]

/-! ### What the caller holds -/

open Lib (need_bind_eq_ok need_eq_ok found_bind_eq_ok bind_eq_ok)

/-! ### What the checks have checked -/

theorem needOutrank_ok {subjects : List Subject}
    (h : needOutrank s p path subjects = .ok ()) :
    ∀ x ∈ subjects, x = subjectOf p ∨ ∀ q ∈ s.reach x path, q ∈ s.privileges (subjectOf p) path := by
  unfold needOutrank at h
  rw [need_bind_eq_ok] at h
  exact h.1

theorem mem_reach {t : Subject} {q : Privilege}
    (h : q ∈ s.privileges t path) : q ∈ s.reach t path := by
  obtain ⟨-, p, hp, -⟩ := mem_privileges.mp h
  have hmem : path ∈ chain s.tenantOf p := by
    rw [← (formatPath_of_parsePath hp).1]
    cases p <;> simp [chain, formatPath]
  unfold Snapshot.reach
  rw [hp]
  exact mem_flatMap.mpr ⟨path, hmem, h⟩

/-- The body gives a user's or service account's id in another spelling than the database's. -/
def misspelled (body : EntryBody) : Bool :=
  (body.kind = .user || body.kind = .service) && canonical body.id ≠ body.id

theorem kind_subjectOf (who : Principal) :
    (subjectOf who).kind = .user ∨ (subjectOf who).kind = .service := by
  unfold subjectOf subjectKey
  split_ifs
  · exact .inr rfl
  · exact .inl rfl

variable {kind : SubjectKind} {who : Principal}

theorem mem_reachOf_self
    (hid : isUuid id = true) (hself : (⟨kind, id⟩ : Subject) = subjectOf who) :
    subjectOf who ∈ reachOf db ⟨kind, id⟩ := by
  have hk := kind_subjectOf who
  rw [← hself] at hk ⊢
  unfold reachOf
  rw [if_neg (by simp [hid])]
  rcases hk with hk | hk
  · obtain rfl : kind = .user := hk
    exact mem_singleton_self _
  · obtain rfl : kind = .service := hk
    exact mem_singleton_self _

theorem mem_reachOf_group
    (hid : isUuid id = true) (h : (⟨kind, canonical id⟩ : Subject) ∈ groupsOf db (subjectOf who)) :
    subjectOf who ∈ reachOf db ⟨kind, id⟩ := by
  unfold reachOf
  rw [if_neg (by simp [hid])]
  simp only [groupsOf, mem_append, List.mem_map, List.mem_filterMap, mem_filter,
    decide_eq_true_eq] at h
  -- A group's member, a tenant's member, a tenant's service account.
  rcases h with (⟨m, ⟨hm, hs⟩, he⟩ | ⟨m, ⟨hm, hs⟩, he⟩) | ⟨a, ⟨ha, hs⟩, he⟩
  · obtain ⟨rfl, hi⟩ := Subject.mk.inj he
    exact List.mem_map.mpr ⟨m, mem_filter.mpr ⟨hm, by simpa using hi⟩, hs⟩
  · obtain ⟨rfl, hi⟩ := Subject.mk.inj he
    refine mem_append_left _ (List.mem_map.mpr ⟨m.1, mem_filter.mpr ⟨?_, by
      simpa using hi⟩, hs⟩)
    exact (mem_innerJoin.mp (show (m.1, m.2) ∈ members db from hm)).1
  · obtain ⟨t, ht, he⟩ := map_eq_some_iff.mp he
    obtain ⟨rfl, hi⟩ := Subject.mk.inj he
    refine mem_append_right _ (List.mem_map.mpr ⟨a, mem_filter.mpr ⟨ha, ?_⟩, hs⟩)
    simp [ht, hi]

theorem mem_reachOf {k : Subject}
    (hid : isUuid id = true) (hk : k = ⟨kind, canonical id⟩)
    (hspell : canonical id = id ∨ kind = .group ∨ kind = .tenant)
    (h : k ∈ (load db).keysOf (subjectOf who)) : subjectOf who ∈ reachOf db ⟨kind, id⟩ := by
  subst hk
  rcases mem_cons.mp h with hself | hgroup
  · have hkind := kind_subjectOf who
    rw [← hself] at hkind
    have hc : canonical id = id := by
      rcases hspell with h | rfl | rfl
      · exact h
      · rcases hkind with h | h <;> cases h
      · rcases hkind with h | h <;> cases h
    rw [hc] at hself
    exact mem_reachOf_self hid hself
  · exact mem_reachOf_group hid hgroup

/-! ### The snapshot after a change -/

theorem sameFacts_load (h : { db' with
      aclEntries := db.aclEntries, aclEntries_ids := db.aclEntries_ids } = db) :
    SameFacts (load db) (load db') := by
  rw [← h]
  exact ⟨rfl, rfl, rfl, rfl, rfl⟩

theorem added_withEntry (h : free db row) {role : RoleId}
    (hrole : isRoleId row.role = some role) :
    Added (entryOf row role) (load db).byPath (load (withEntry db row h)).byPath := by
  intro path x
  rw [mem_byPath_load, mem_byPath_load, mem_explicitEntries, mem_explicitEntries]
  have hvirtual : virtualEntries (withEntry db row h) = virtualEntries db := rfl
  rw [hvirtual]
  constructor
  · rintro ⟨⟨r, hr, role', hr', rfl⟩ | hx, hp⟩
    · rcases mem_append.mp hr with hr | hr
      · exact .inl ⟨.inl ⟨r, hr, role', hr', rfl⟩, hp⟩
      · obtain rfl := mem_singleton.mp hr
        rw [hrole] at hr'
        obtain rfl := some.inj hr'
        exact .inr ⟨rfl, hp.symm⟩
    · exact .inl ⟨.inr hx, hp⟩
  · rintro (⟨⟨r, hr, role', hr', rfl⟩ | hx, hp⟩ | ⟨rfl, hp⟩)
    · exact ⟨.inl ⟨r, mem_append_left _ hr, role', hr', rfl⟩, hp⟩
    · exact ⟨.inr hx, hp⟩
    · exact ⟨.inl ⟨row, mem_append_right _ mem_cons_self, role, hrole, rfl⟩, hp.symm⟩

theorem row_eq_of_id {r r' : AclEntryRow} (hr : r ∈ db.aclEntries)
    (hr' : r' ∈ db.aclEntries) (h : r.id = r'.id) : r = r' :=
  inj_on_of_nodup_map db.aclEntries_ids hr hr' h

theorem removed_deleteEntry (hrow : row ∈ db.aclEntries)
    {role : RoleId} (hrole : isRoleId row.role = some role) (path : String) (x : Entry) :
    x ∈ (load (deleteEntry db row)).byPath path ↔
      x ∈ (load db).byPath path ∧ x ≠ entryOf row role := by
  rw [mem_byPath_load, mem_byPath_load, mem_explicitEntries, mem_explicitEntries]
  have hvirtual : virtualEntries (deleteEntry db row) = virtualEntries db := rfl
  rw [hvirtual]
  constructor
  · rintro ⟨⟨r, hr, role', hr', rfl⟩ | hx, hp⟩
    · obtain ⟨hr, hne⟩ := mem_aclEntries_deleteEntry.mp hr
      refine ⟨⟨.inl ⟨r, hr, role', hr', rfl⟩, hp⟩, fun he => hne ?_⟩
      exact Uuid.ext_text (congrArg Entry.id he)
    · refine ⟨⟨.inr hx, hp⟩, ?_⟩
      rintro rfl
      exact source_of_mem_virtualEntries hx rfl
  · rintro ⟨⟨⟨r, hr, role', hr', rfl⟩ | hx, hp⟩, hne⟩
    · refine ⟨.inl ⟨r, mem_aclEntries_deleteEntry.mpr ⟨hr, fun hid => hne ?_⟩, role', hr', rfl⟩, hp⟩
      obtain rfl := row_eq_of_id hr hrow hid
      rw [hrole] at hr'
      rw [some.inj hr']
    · exact ⟨.inr hx, hp⟩

/-! ### The changes -/

/-- No change takes from anyone but the caller what the caller does not hold. -/
def NeverAbove (s s' : Snapshot) (me : Subject) : Prop :=
  ∀ who : Principal, subjectOf who ≠ me → ∀ path q,
    q ∈ s.privileges (subjectOf who) path → q ∉ s'.privileges (subjectOf who) path →
      q ∈ s.privileges me path

theorem subject_mem_of_takesAt {e : Entry} {t : Subject}
    {q : Privilege} (hq : q ∈ s.privileges t path) (h : TakesAt s e t path q) :
    e.subject ∈ s.keysOf t := by
  obtain ⟨-, p, hp, line, hline, hgives⟩ := mem_privileges.mp hq
  obtain ⟨pre, l, post, -, -, hl, -⟩ := h p hp line hline hgives
  exact hl.2.1

theorem subject_mem_of_dropsAt {e : Entry} {t : Subject}
    {q : Privilege} (hq : q ∈ s.privileges t path) (h : DropsAt s e t path q) :
    e.subject ∈ s.keysOf t := by
  obtain ⟨-, p, hp, line, hline, hgives⟩ := mem_privileges.mp hq
  obtain ⟨he, -⟩ := (h p hp line hline).1 hgives
  obtain ⟨l, -, -, hmem⟩ := Lib.exists_of_mem_firstHit (preferOwn_subset he)
  exact (mem_here.mp hmem).2.1

/-- Wherever the new entry takes a privilege on an object other than its path (or there too, if the
body misspells the subject's id), the caller holds it on that object. -/
def HoldsWhatPostTakes (db : Db) (p : Principal) (body : EntryBody) (id : Uuid) : Prop :=
  ∀ role, isRoleId body.role = some role →
    ∀ who : Principal, subjectOf who ≠ subjectOf p →
    ∀ path, (path ≠ body.path ∨ misspelled body = true) →
    ∀ q ∈ (load db).privileges (subjectOf who) path,
      TakesAt (load db) ⟨id.text, body.path, ⟨body.kind, canonical body.id⟩, role,
        body.propagate, .acl⟩ (subjectOf who) path q →
      q ∈ (load db).privileges (subjectOf p) path

/-- Wherever removing the entry drops a privilege on an object other than its path, the caller holds
it on that object. -/
def HoldsWhatDeleteDrops (db : Db) (p : Principal) (id : String) : Prop :=
  ∀ row ∈ db.aclEntries, row.id.text = canonical id →
    ∀ role, isRoleId row.role = some role →
    ∀ who : Principal, subjectOf who ≠ subjectOf p →
    ∀ path, path ≠ row.path →
    ∀ q ∈ (load db).privileges (subjectOf who) path,
      DropsAt (load db) (entryOf row role) (subjectOf who) path q →
      q ∈ (load db).privileges (subjectOf p) path

theorem neverAbove_createEntry_iff {id : Uuid}
    (h : createEntry (load db) db p body id = .ok db') :
    NeverAbove (load db) (load db') (subjectOf p) ↔ HoldsWhatPostTakes db p body id := by
  obtain ⟨row, hfree, hrow, rfl⟩ := createEntry_ok h
  obtain ⟨role, hrole⟩ := hrow.isRole
  have hadded := added_withEntry hfree hrole
  rw [hrow.entryOf_eq] at hadded
  have hsame : SameFacts (load db) (load (withEntry db row hfree)) := sameFacts_load rfl
  constructor
  · intro hna role' hrole' who hwho path _ q hq ht
    rw [← hrow.role, hrole] at hrole'
    obtain rfl := some.inj hrole'
    exact hna who hwho path q hq ((not_mem_privileges_added hsame hadded hq).mpr ht)
  · intro hcond who hwho path q hq hq'
    have ht := (not_mem_privileges_added hsame hadded hq).mp hq'
    by_cases hpath : path ≠ body.path ∨ misspelled body = true
    · exact hcond role (by rw [← hrow.role, hrole]) who hwho path hpath q hq ht
    -- On the path itself the subject was compared with the caller.
    push Not at hpath
    obtain ⟨rfl, hspell⟩ := hpath
    have hspell' : canonical body.id = body.id ∨ body.kind = .group ∨ body.kind = .tenant := by
      cases hk : body.kind <;> simp_all [misspelled]
    have hreach := mem_reachOf hrow.uuid rfl hspell' (subject_mem_of_takesAt hq ht)
    rcases needOutrank_ok hrow.outrank _ hreach with he | hle
    · exact absurd he hwho
    · exact hle q (mem_reach hq)

theorem neverAbove_removeEntry_iff
    (h : removeEntry (load db) db p id = .ok db') :
    NeverAbove (load db) (load db') (subjectOf p) ↔ HoldsWhatDeleteDrops db p id := by
  obtain ⟨row, role, hrow, hid, rfl, hrole, hrank⟩ := removeEntry_ok h
  have hremoved := removed_deleteEntry hrow hrole
  have hsame : SameFacts (load db) (load (deleteEntry db row)) := sameFacts_load rfl
  constructor
  · intro hna row' hrow' hid' role' hrole' who hwho path _ q hq hd
    obtain rfl := row_eq_of_id hrow hrow' (Uuid.ext_text (hid.trans hid'.symm))
    rw [hrole] at hrole'
    obtain rfl := some.inj hrole'
    exact hna who hwho path q hq ((not_mem_privileges_removed hsame hremoved hq).mpr hd)
  · intro hcond who hwho path q hq hq'
    have hd := (not_mem_privileges_removed hsame hremoved hq).mp hq'
    by_cases hpath : path = row.path
    swap
    · exact hcond row hrow hid role hrole who hwho path hpath q hq hd
    subst hpath
    have hcanon : canonical row.subjectId.text = row.subjectId.text := row.subjectId.valid.2
    have hreach : subjectOf who ∈ reachOf db (entrySubject row) :=
      mem_reachOf row.subjectId.valid.1 (by rw [hcanon]; rfl) (.inl hcanon)
        (subject_mem_of_dropsAt hq hd)
    rcases needOutrank_ok hrank _ (mem_append_left _ hreach) with he | hle
    · exact absurd he hwho
    · exact hle q (mem_reach hq)

/-- **No change reaches above the caller**, exactly when the caller holds what the change takes on
the objects below the entry's path: nothing else can go wrong. -/
theorem change_never_above_iff (db : Db) (p : Principal) :
    (∀ (body : EntryBody) (id : Uuid) (db' : Db), createEntry (load db) db p body id = .ok db' →
      (NeverAbove (load db) (load db') (subjectOf p) ↔ HoldsWhatPostTakes db p body id)) ∧
    (∀ (id : String) (db' : Db), removeEntry (load db) db p id = .ok db' →
      (NeverAbove (load db) (load db') (subjectOf p) ↔ HoldsWhatDeleteDrops db p id)) :=
  ⟨fun _ _ _ h => neverAbove_createEntry_iff h, fun _ _ h => neverAbove_removeEntry_iff h⟩

/-! ### A tenant admin against a cluster owner -/

def userB : Uuid := ⟨"00000000-0000-0000-0000-00000000000b", by decide⟩

def tenantT : TenantRow := ⟨⟨"00000000-0000-0000-0000-0000000000d0", by decide⟩, nameT⟩

/-- `userB` is Cluster owner of cluster `c`, where tenant `t` has a project; `userU` is an admin of
the tenant. -/
def tenantOnCluster : Db where
  users := [⟨userU, "u@example.net", false⟩, ⟨userB, "b@example.net", false⟩]
  tenants := [tenantT]
  tenantMembers := [⟨tenantT.id, userU, .admin⟩]
  clusters := [clusterC]
  placements := [⟨tenantT.id, clusterC.id, nameT⟩]
  aclEntries :=
    [{ id := idE1
       path := "/clusters/c"
       kind := .user
       subjectId := userB
       role := "cluster-owner"
       propagate := true
       createdBy := none
       parses := parsePath_clusterC }]

def userOfTenant : EntryBody := ⟨"/tenants/t", .user, userB.text, "user", true⟩

def newId : Uuid := idE2

def userOfTenantRow : AclEntryRow where
  id := newId
  path := "/tenants/t"
  kind := .user
  subjectId := userB
  role := "user"
  propagate := true
  createdBy := some userU
  parses := by decide

theorem createEntry_tenantOnCluster :
    createEntry (load tenantOnCluster) tenantOnCluster ⟨false, userU⟩ userOfTenant newId =
      .ok (withEntry tenantOnCluster userOfTenantRow (by decide)) := by
  decide

theorem removeEntry_tenantOnCluster :
    removeEntry (load (withEntry tenantOnCluster userOfTenantRow (by decide)))
        (withEntry tenantOnCluster userOfTenantRow (by decide)) ⟨false, userU⟩ newId.text =
      .ok tenantOnCluster := by
  decide

/-- The equivalence at `userU`'s entry for `userB`, and at its removal. -/
theorem change_never_above_iff_tenantOnCluster :
    (NeverAbove (load tenantOnCluster)
        (load (withEntry tenantOnCluster userOfTenantRow (by decide))) (subjectOf ⟨false, userU⟩) ↔
      HoldsWhatPostTakes tenantOnCluster ⟨false, userU⟩ userOfTenant newId) ∧
    (NeverAbove (load (withEntry tenantOnCluster userOfTenantRow (by decide)))
        (load tenantOnCluster) (subjectOf ⟨false, userU⟩) ↔
      HoldsWhatDeleteDrops (withEntry tenantOnCluster userOfTenantRow (by decide)) ⟨false, userU⟩
        newId.text) :=
  ⟨(change_never_above_iff tenantOnCluster ⟨false, userU⟩).1 userOfTenant newId _
      createEntry_tenantOnCluster,
    (change_never_above_iff (withEntry tenantOnCluster userOfTenantRow (by decide))
      ⟨false, userU⟩).2 newId.text _ removeEntry_tenantOnCluster⟩

/-- A tenant admin's entry takes from the cluster's owner, on the tenant's project, privileges the
tenant admin does not have. -/
theorem change_above_tenant_admin :
    ¬ ∀ (db : Db) (p : Principal) (body : EntryBody) (id : Uuid) (db' : Db),
      createEntry (load db) db p body id = .ok db' →
      NeverAbove (load db) (load db') (subjectOf p) := by
  intro h
  have hna := h tenantOnCluster ⟨false, userU⟩ userOfTenant newId _ createEntry_tenantOnCluster
  have hheld := hna ⟨false, userB⟩ (by decide) "/clusters/c/projects/t" .storagePools (by decide)
    (by decide)
  exact absurd hheld (by decide)

end IncusCloud.Api
