import IncusCloud.Api.Proofs.Outrank
import IncusCloud.Api.Tenants
import IncusCloud.Lib.Run

/-!
# A tenant keeps an owner

`owned_tenant_keeps_owner`: whatever requests are made, one at a time, a tenant with an owner has
one after each of them while it exists, as long as no `DELETE` of a user removes its only owner.
The member routes count the owners first; deleting a user does not, and the database deletes its
memberships with it (`owner_deleted_with_user`).
-/

namespace IncusCloud.Api

open Acl List Option
open Lib (Run need_eq_ok need_bind_eq_ok found_bind_eq_ok bind_eq_ok)
open Except (ok.inj)

/-! ### Requests, one at a time -/

/-- The operations of the API. `other` stands for all that write neither tenants nor memberships. -/
inductive Operation
  | putMember (p : Principal) (id userId : String) (role : TenantRole)
  | postMember (p : Principal) (id email : String) (role : TenantRole)
  | deleteMember (p : Principal) (id userId : String)
  | createTenant (p : Principal) (slug : Name) (ownerId : Option String) (id : Uuid)
  | deleteTenant (p : Principal) (id : String)
  | createUser (p : Principal) (email : String) (role : Option PlatformRole) (id : Uuid)
  | updateUser (p : Principal) (id : String) (body : PatchBody)
  | deleteUser (p : Principal) (id : String)
  | createEntry (p : Principal) (body : EntryBody) (id : Uuid)
  | removeEntry (p : Principal) (id : String)
  | other (db' : Db)

def perform (s : Snapshot) (db : Db) : Operation → Except ApiError Db
  | .putMember p id userId role => putMemberById s db p id userId role
  | .postMember p id email role => postMember s db p id email role
  | .deleteMember p id userId => deleteMember s db p id userId
  | .createTenant p slug ownerId id => createTenant s db p slug ownerId id
  | .deleteTenant p id => deleteTenant s db p id
  | .createUser p email role id => createUser s db p email role id
  | .updateUser p id body => updateUser s db p id body
  | .deleteUser p id => deleteUser s db p id
  | .createEntry p body id => createEntry s db p body id
  | .removeEntry p id => removeEntry s db p id
  | .other db' =>
    if db'.tenants = db.tenants ∧ db'.tenantMembers = db.tenantMembers then .ok db'
    else .error internal

def serve (db : Db) (a : Snapshot × Operation) : Option Db :=
  match perform a.1 db a.2 with
  | .ok db' => some db'
  | .error _ => some db

def tenantExists (db : Db) (t : Uuid) : Prop := ∃ x ∈ db.tenants, x.id = t

instance (db : Db) (t : Uuid) : Decidable (tenantExists db t) :=
  inferInstanceAs (Decidable (∃ x ∈ db.tenants, _))

def HasOwner (db : Db) (t : Uuid) : Prop := ∃ m ∈ db.tenantMembers, m.tenantId = t ∧ m.role = .owner

instance (db : Db) (t : Uuid) : Decidable (HasOwner db t) :=
  inferInstanceAs (Decidable (∃ m ∈ db.tenantMembers, _ ∧ _))

def StaysAfter (t : Uuid) (db : Db) (a : Snapshot × Operation) : Prop :=
  ∀ db' ∈ serve db a, tenantExists db' t

instance (t : Uuid) (db : Db) (a : Snapshot × Operation) : Decidable (StaysAfter t db a) :=
  inferInstanceAs (Decidable (∀ db' ∈ serve db a, _))

def spares (t : Uuid) (db : Db) : Operation → Bool
  | .deleteUser _ id => (ownersOf db t).any fun m => m.userId.text ≠ canonical id
  | _ => true

def SparesOwner (t : Uuid) (db : Db) (a : Snapshot × Operation) : Prop :=
  StaysAfter t db a ∧ spares t db a.2 = true

instance (t : Uuid) (db : Db) (a : Snapshot × Operation) : Decidable (SparesOwner t db a) :=
  inferInstanceAs (Decidable (_ ∧ _))

/-! ### Owners -/

variable {m : TenantMemberRow}

theorem mem_ownersOf {db : Db} {t : Uuid} :
    m ∈ ownersOf db t ↔ m ∈ db.tenantMembers ∧ m.tenantId = t ∧ m.role = .owner := by
  rw [ownersOf, mem_filter, Bool.and_eq_true, decide_eq_true_eq, decide_eq_true_eq]

theorem hasOwner_iff {db : Db} {t : Uuid} : HasOwner db t ↔ ∃ m, m ∈ ownersOf db t := by
  unfold HasOwner
  simp only [mem_ownersOf]

theorem member_eq {db : Db} {m n : TenantMemberRow} (hm : m ∈ db.tenantMembers)
    (hn : n ∈ db.tenantMembers) (ht : m.tenantId = n.tenantId) (hu : m.userId = n.userId) :
    m = n :=
  inj_on_of_nodup_map db.tenantMembers_keys hm hn (by rw [ht, hu])

theorem exists_other_owner {db : Db} {t : Uuid} (h : 1 < ownerCount db t) (u : Uuid) :
    ∃ m ∈ ownersOf db t, m.userId ≠ u := by
  by_contra hno
  push Not at hno
  have hkey : ∀ m ∈ ownersOf db t, (m.tenantId, m.userId) = (t, u) := by
    intro m hm
    rw [(mem_ownersOf.mp hm).2.1, hno m hm]
  have hnodup : ((ownersOf db t).map fun m => (m.tenantId, m.userId)).Nodup :=
    db.tenantMembers_keys.sublist (filter_sublist.map _)
  unfold ownerCount at h
  -- Two rows would have the same key.
  rcases hl : ownersOf db t with _ | ⟨a, _ | ⟨b, l⟩⟩
  · simp [hl] at h
  · simp [hl] at h
  · rw [hl] at hkey hnodup
    have ha := hkey a (by simp)
    have hb := hkey b (by simp)
    simp [ha, hb] at hnodup

theorem hasOwner_of_kept {db db' : Db} {t : Uuid} (hm : m ∈ ownersOf db t)
    (hkeep : m ∈ db'.tenantMembers) : HasOwner db' t :=
  ⟨m, hkeep, (mem_ownersOf.mp hm).2⟩

/-! ### Each operation -/

section Operations

variable {s : Snapshot} {db db' : Db} {p : Principal} {t : Uuid}

theorem mem_dropMember {tenantId userId : Uuid} :
    m ∈ (dropMember db tenantId userId).tenantMembers ↔
      m ∈ db.tenantMembers ∧ ¬ (m.tenantId = tenantId ∧ m.userId = userId) := by
  change m ∈ db.tenantMembers.filter _ ↔ _
  rw [mem_filter, decide_eq_true_eq, ne_eq, Prod.mk.injEq]

theorem hasOwner_setMember {tenant : TenantRow} {userId : String} {role : TenantRole}
    (h : setMember s db p tenant userId role = .ok db') (ho : HasOwner db t) : HasOwner db' t := by
  obtain ⟨user, huser, h⟩ := found_bind_eq_ok.mp h
  obtain ⟨-, -, h⟩ := bind_eq_ok.mp h
  obtain ⟨-, -, h⟩ := bind_eq_ok.mp h
  obtain ⟨hlast, h⟩ := need_bind_eq_ok.mp h
  split_ifs at h with hcur
  · obtain rfl := ok.inj h
    exact ho
  obtain rfl := ok.inj h
  have hmem : ∀ m, m ∈ (dropMember db tenant.id user.id).tenantMembers →
      m ∈ (putMember db tenant.id user.id role).tenantMembers :=
    fun m hm => mem_append_left _ hm
  obtain ⟨m, hm⟩ := hasOwner_iff.mp ho
  obtain ⟨hmdb, hmt, hmo⟩ := mem_ownersOf.mp hm
  by_cases hkey : m.tenantId = tenant.id ∧ m.userId = user.id
  swap
  · exact hasOwner_of_kept hm (hmem m (mem_dropMember.mpr ⟨hmdb, hkey⟩))
  -- The owner is the member whose role is set.
  have hfind : memberOf db tenant.id user.id = some m := by
    unfold memberOf
    rcases hf : db.tenantMembers.find? (fun m => m.tenantId = tenant.id && m.userId = user.id) with
      _ | n
    · have := List.find?_eq_none.mp hf m hmdb
      simp [hkey] at this
    · have hn := List.find?_some hf
      simp only [Bool.and_eq_true, decide_eq_true_eq] at hn
      rw [hf, member_eq (mem_of_find?_eq_some hf) hmdb (hn.1.trans hkey.1.symm)
        (hn.2.trans hkey.2.symm)]
  rcases hlast with hl | rfl | hl
  · simp [hfind, hmo] at hl
  · refine ⟨⟨tenant.id, user.id, .owner⟩, mem_append_right _ mem_cons_self, ?_, rfl⟩
    exact hkey.1.symm.trans hmt
  · have hteq : tenant.id = t := hkey.1.symm.trans hmt
    rw [hteq] at hl
    obtain ⟨n, hn, hne⟩ := exists_other_owner hl user.id
    exact hasOwner_of_kept hn (hmem n (mem_dropMember.mpr ⟨(mem_ownersOf.mp hn).1,
      fun hk => hne hk.2⟩))

theorem hasOwner_deleteMember {id userId : String} (h : deleteMember s db p id userId = .ok db')
    (ho : HasOwner db t) : HasOwner db' t := by
  obtain ⟨tenant, -, h⟩ := bind_eq_ok.mp h
  obtain ⟨-, h⟩ := need_bind_eq_ok.mp h
  obtain ⟨cur, hcur, h⟩ := found_bind_eq_ok.mp h
  obtain ⟨-, -, h⟩ := bind_eq_ok.mp h
  obtain ⟨⟨⟩, hlast, h⟩ := bind_eq_ok.mp h
  obtain rfl := ok.inj h
  have hcurdb := mem_of_find?_eq_some hcur
  have hcurt : cur.tenantId = tenant.id := by
    have := List.find?_some hcur
    simp only [Bool.and_eq_true, decide_eq_true_eq] at this
    exact this.1
  obtain ⟨m, hm⟩ := hasOwner_iff.mp ho
  obtain ⟨hmdb, hmt, hmo⟩ := mem_ownersOf.mp hm
  by_cases hkey : m.tenantId = tenant.id ∧ m.userId = cur.userId
  swap
  · exact hasOwner_of_kept hm (mem_dropMember.mpr ⟨hmdb, hkey⟩)
  -- The owner itself is removed: there is another.
  obtain rfl := member_eq hcurdb hmdb (hcurt.trans hkey.1.symm) hkey.2.symm
  rw [needOtherOwner, if_pos hmo] at hlast
  obtain ⟨-, -, hlast⟩ := bind_eq_ok.mp hlast
  have hcount := need_eq_ok.mp hlast
  rw [← hkey.1, hmt] at hcount
  obtain ⟨n, hn, hne⟩ := exists_other_owner hcount cur.userId
  exact hasOwner_of_kept hn (mem_dropMember.mpr ⟨(mem_ownersOf.mp hn).1, fun hk => hne hk.2⟩)

theorem hasOwner_createTenant {slug : Name} {ownerId : Option String} {id : Uuid}
    (h : createTenant s db p slug ownerId id = .ok db') (ho : HasOwner db t) : HasOwner db' t := by
  obtain ⟨-, h⟩ := need_bind_eq_ok.mp h
  obtain ⟨-, h⟩ := need_bind_eq_ok.mp h
  obtain ⟨-, h⟩ := need_bind_eq_ok.mp h
  obtain ⟨owner, -, h⟩ := bind_eq_ok.mp h
  split_ifs at h with hfree
  obtain rfl := ok.inj h
  obtain ⟨m, hm, hrest⟩ := ho
  exact ⟨m, mem_append_left _ hm, hrest⟩

variable {id : String}

theorem hasOwner_deleteTenant (h : deleteTenant s db p id = .ok db')
    (hex : tenantExists db' t) (ho : HasOwner db t) : HasOwner db' t := by
  obtain ⟨tenant, -, h⟩ := bind_eq_ok.mp h
  obtain ⟨-, -, h⟩ := bind_eq_ok.mp h
  obtain ⟨-, h⟩ := need_bind_eq_ok.mp h
  obtain ⟨-, h⟩ := need_bind_eq_ok.mp h
  obtain rfl := ok.inj h
  obtain ⟨x, hx, rfl⟩ := hex
  have hne : x.id ≠ tenant.id := of_decide_eq_true (mem_filter.mp hx).2
  obtain ⟨m, hm, hmt, hmo⟩ := ho
  refine ⟨m, mem_filter.mpr ⟨hm, decide_eq_true ?_⟩, hmt, hmo⟩
  rw [hmt]
  exact hne

theorem id_of_userChecks {x : UserRow × Option PlatformRole}
    (h : userChecks s db p id = .ok x) : x.1.id.text = canonical id := by
  obtain ⟨-, -, h⟩ := bind_eq_ok.mp h
  obtain ⟨-, h⟩ := need_bind_eq_ok.mp h
  obtain ⟨u, hu, h⟩ := found_bind_eq_ok.mp h
  obtain rfl := ok.inj h
  simpa using List.find?_some hu

theorem hasOwner_deleteUser (h : deleteUser s db p id = .ok db')
    (hother : ∃ m ∈ ownersOf db t, m.userId.text ≠ canonical id) : HasOwner db' t := by
  obtain ⟨x, hx, h⟩ := bind_eq_ok.mp h
  obtain ⟨-, -, h⟩ := bind_eq_ok.mp h
  obtain rfl := ok.inj h
  obtain ⟨m, hm, hne⟩ := hother
  refine hasOwner_of_kept hm (mem_filter.mpr ⟨(mem_ownersOf.mp hm).1, decide_eq_true ?_⟩)
  intro hu
  exact hne (hu ▸ id_of_userChecks hx)

theorem tenantMembers_updateUser {body : PatchBody}
    (h : updateUser s db p id body = .ok db') : db'.tenantMembers = db.tenantMembers := by
  obtain ⟨x, -, h⟩ := bind_eq_ok.mp h
  obtain ⟨-, -, h⟩ := bind_eq_ok.mp h
  obtain ⟨-, h⟩ := need_bind_eq_ok.mp h
  obtain ⟨-, h⟩ := need_bind_eq_ok.mp h
  obtain rfl := ok.inj h
  rfl

theorem tenantMembers_createUser {email : String} {role : Option PlatformRole} {id : Uuid}
    (h : createUser s db p email role id = .ok db') : db'.tenantMembers = db.tenantMembers := by
  obtain ⟨-, -, h⟩ := bind_eq_ok.mp h
  obtain ⟨-, h⟩ := need_bind_eq_ok.mp h
  obtain ⟨-, h⟩ := need_bind_eq_ok.mp h
  obtain rfl := ok.inj h
  rfl

theorem tenantMembers_createEntry {body : EntryBody} {id : Uuid}
    (h : createEntry s db p body id = .ok db') : db'.tenantMembers = db.tenantMembers := by
  obtain ⟨row, hfree, -, rfl⟩ := createEntry_ok h
  rfl

theorem tenantMembers_removeEntry (h : removeEntry s db p id = .ok db') :
    db'.tenantMembers = db.tenantMembers := by
  obtain ⟨row, role, -, -, rfl, -⟩ := removeEntry_ok h
  rfl

theorem hasOwner_congr (h : db'.tenantMembers = db.tenantMembers) (ho : HasOwner db t) :
    HasOwner db' t := by
  unfold HasOwner at ho ⊢
  rwa [h]

theorem hasOwner_perform {op : Operation} (h : perform s db op = .ok db')
    (hex : tenantExists db' t)
    (hspare : spares t db op = true)
    (ho : HasOwner db t) : HasOwner db' t := by
  cases op with
  | putMember p id userId role =>
    obtain ⟨tenant, -, h⟩ := bind_eq_ok.mp h
    obtain ⟨-, h⟩ := need_bind_eq_ok.mp h
    exact hasOwner_setMember h ho
  | postMember p id email role =>
    obtain ⟨tenant, -, h⟩ := bind_eq_ok.mp h
    obtain ⟨u, hu, h⟩ := found_bind_eq_ok.mp h
    exact hasOwner_setMember h ho
  | deleteMember p id userId => exact hasOwner_deleteMember h ho
  | createTenant p slug ownerId id => exact hasOwner_createTenant h ho
  | deleteTenant p id => exact hasOwner_deleteTenant h hex ho
  | createUser p email role id => exact hasOwner_congr (tenantMembers_createUser h) ho
  | updateUser p id body => exact hasOwner_congr (tenantMembers_updateUser h) ho
  | deleteUser p id =>
    -- The cascade is not counted: another owner is left because the request spares one.
    obtain ⟨m, hm, hne⟩ := any_eq_true.mp hspare
    exact hasOwner_deleteUser h ⟨m, hm, of_decide_eq_true hne⟩
  | createEntry p body id => exact hasOwner_congr (tenantMembers_createEntry h) ho
  | removeEntry p id => exact hasOwner_congr (tenantMembers_removeEntry h) ho
  | other x =>
    simp only [perform] at h
    split_ifs at h with hsame
    obtain rfl := ok.inj h
    exact hasOwner_congr hsame.2 ho

end Operations

/-! ### Runs -/

/-- **A tenant that has an owner keeps one**, in every sequence of requests in which it stays and no
`DELETE` of a user removes its only owner. -/
theorem owned_tenant_keeps_owner (t : Uuid) (start db : Db) (ho : HasOwner start t)
    (hrun : Run serve (SparesOwner t) start db) : HasOwner db t := by
  refine hrun.invariant (I := fun db => HasOwner db t) ho fun db a db' ho hok hs => ?_
  have hex := hok.1 db' hs
  unfold serve at hs
  split at hs
  · rename_i db'' hperform
    obtain rfl := some.inj hs
    exact hasOwner_perform hperform hex hok.2 ho
  · obtain rfl := some.inj hs
    exact ho

/-! ### A user who owns a tenant -/

def adminM : Uuid := ⟨"00000000-0000-0000-0000-0000000000f1", by decide⟩

def ownerO : Uuid := ⟨"00000000-0000-0000-0000-0000000000f2", by decide⟩

def tenantR : TenantRow := ⟨idD1, ⟨"r", by decide⟩⟩

/-- `ownerO` owns tenant `r`; `adminM` is a platform administrator. -/
def soleOwner : Db where
  users := [⟨adminM, "m@example.net", false⟩, ⟨ownerO, "o@example.net", false⟩]
  platformRoles := [⟨adminM, .admin⟩]
  tenants := [tenantR]
  tenantMembers := [⟨tenantR.id, ownerO, .owner⟩]
  aclEntries_ids := aclEntries_ids_nil

/-- `adminM` becomes an owner, then deletes `ownerO`: the tenant has an owner. -/
theorem owned_tenant_keeps_owner_replaced :
    ∃ db, Run serve (SparesOwner tenantR.id) soleOwner db ∧
      db.users = [⟨adminM, "m@example.net", false⟩] ∧ HasOwner db tenantR.id := by
  have hexec : ((Run.exec serve (SparesOwner tenantR.id) soleOwner
      [(load soleOwner, .putMember ⟨false, adminM⟩ tenantR.id.text adminM.text .owner),
        (load soleOwner, .deleteUser ⟨false, adminM⟩ ownerO.text)]).map (·.users)) =
      some [⟨adminM, "m@example.net", false⟩] := by decide
  obtain ⟨db, hdb, husers⟩ := map_eq_some_iff.mp hexec
  have hrun := Run.of_exec .refl hdb
  exact ⟨db, hrun, husers, owned_tenant_keeps_owner tenantR.id soleOwner db (by decide) hrun⟩

/-- Deleting the user who is its only owner leaves the tenant without one. -/
theorem owner_deleted_with_user :
    ¬ ∀ (t : Uuid) (start db : Db), HasOwner start t → Run serve (StaysAfter t) start db →
      HasOwner db t := by
  intro h
  have hexec : ((Run.exec serve (StaysAfter tenantR.id) soleOwner
      [(load soleOwner, .deleteUser ⟨false, adminM⟩ ownerO.text)]).map (·.tenantMembers)) =
      some [] := by decide
  obtain ⟨db, hdb, hnone⟩ := map_eq_some_iff.mp hexec
  obtain ⟨m, hm, -⟩ := h tenantR.id soleOwner db (by decide) (Run.of_exec .refl hdb)
  rw [hnone] at hm
  simp at hm

end IncusCloud.Api
