import IncusCloud.Api.Process
import IncusCloud.Api.Proofs.Outrank
import IncusCloud.Lib.Run

/-!
# Someone stays an administrator

`someone_stays_administrator`: however requests to change users and entries are interleaved, an
enabled user whose own entries on `/` give every privilege remains, as long as no write that drops
an administrator's hold or fences someone off falls between another request's guard and its write
(`Undisturbed`), and No access on `/` is given to users spelled as the database spells them. Two
administrators who disable each other at the same time show that the first condition is needed
(`administrators_disable_each_other`).
-/

namespace IncusCloud.Api

open Acl List Option
open Lib (Run need_eq_ok need_bind_eq_ok found_bind_eq_ok bind_eq_ok)
open Except (ok.inj)

variable {db db' : Db} {u : Uuid} {h : AdminHold} {row : AclEntryRow} {c : Change}

/-! ### Administrators by their own entries -/

def ownPrivileges (db : Db) (u : Uuid) : List Privilege :=
  (resolve [⟨.user, u.text⟩] (load db).byPath ["/"] false).privileges

/-- An enabled user whose own entries on `/` give every privilege. -/
def OwnAdministrator (db : Db) (u : Uuid) : Prop :=
  enabled db u = true ∧ ∀ q, q ∈ ownPrivileges db u

theorem mem_deciding_own {s : Snapshot} {k : Subject} {path : String} {e : Entry} :
    e ∈ deciding [k] s.byPath [path] ↔ e ∈ s.byPath path ∧ e.subject = k := by
  have hhere : ∀ x, x ∈ here [k] s.byPath (path, true) ↔ x ∈ s.byPath path ∧ x.subject = k := by
    intro x
    rw [mem_here]
    simp
  have hfirst : Lib.firstHit (here [k] s.byPath) (levels [path]) =
      here [k] s.byPath (path, true) := by
    by_cases h : here [k] s.byPath (path, true) = []
    · simp [levels, Lib.firstHit, h]
    · simp [levels, Lib.firstHit, h]
  have hall : preferOwn [k] (here [k] s.byPath (path, true)) = here [k] s.byPath (path, true) := by
    have hself : (here [k] s.byPath (path, true)).filter
        (fun e => some e.subject = [k].head?) = here [k] s.byPath (path, true) :=
      filter_eq_self.mpr fun x hx => by simp [((hhere x).mp hx).2]
    unfold preferOwn
    dsimp only
    rw [hself]
    split_ifs
    · rfl
    · rfl
  rw [deciding, hfirst, hall, hhere]

theorem mem_own_root {e : Entry} :
    e ∈ deciding [⟨.user, u.text⟩] (load db).byPath ["/"] ↔
      (∃ row ∈ db.aclEntries, row.kind = .user ∧ row.path = "/" ∧ row.subjectId = u ∧
        ∃ role, isRoleId row.role = some role ∧ entryOf row role = e) ∨
      ∃ r ∈ db.platformRoles, r.userId = u ∧ roleEntry r = e := by
  rw [mem_deciding_own, mem_byPath_load, mem_explicitEntries]
  constructor
  · rintro ⟨⟨⟨row, hrow, role, hrole, rfl⟩ | hv, hp⟩, hs⟩
    · obtain ⟨hk, hid⟩ := Subject.mk.inj hs
      exact .inl ⟨row, hrow, hk, hp, Uuid.ext_text hid, role, hrole, rfl⟩
    · rcases mem_virtualEntries hv with ⟨r, hr, rfl⟩ | ⟨-, t, ht⟩ | ⟨-, hk, -⟩
      · exact .inr ⟨r, hr, Uuid.ext_text (Subject.mk.inj hs).2, rfl⟩
      · exact absurd (ht.symm.trans hp) (tenants_ne_root t)
      · rw [hs] at hk
        exact absurd hk (by simp)
  · rintro (⟨row, hrow, hk, hp, rfl, role, hrole, rfl⟩ | ⟨r, hr, rfl, rfl⟩)
    · refine ⟨⟨.inl ⟨row, hrow, role, hrole, rfl⟩, hp⟩, ?_⟩
      simp [entryOf, entrySubject, hk]
    · exact ⟨⟨.inr (mem_virtualEntries_of_role hr), rfl⟩, rfl⟩

theorem mem_fenced : u ∈ fenced db ↔ ∃ e ∈ db.aclEntries,
    e.kind = .user ∧ e.path = "/" ∧ e.role = "no-access" ∧ e.subjectId = u := by
  simp only [fenced, List.mem_map, mem_filter, Bool.and_eq_true, decide_eq_true_eq]
  constructor
  · rintro ⟨e, ⟨he, ⟨hk, hp⟩, hr⟩, hu⟩
    exact ⟨e, he, hk, hp, hr, hu⟩
  · rintro ⟨e, he, hk, hp, hr, hu⟩
    exact ⟨e, ⟨he, ⟨hk, hp⟩, hr⟩, hu⟩

def Rests (db : Db) : AdminHold → Prop
  | .role u => ∃ r ∈ db.platformRoles, r.role = .admin ∧ r.userId = u
  | .entry u id => ∃ e ∈ db.aclEntries, e.kind = .user ∧ e.path = "/" ∧ e.role = "administrator" ∧
      e.subjectId = u ∧ e.id = id

theorem mem_adminRoles :
    h ∈ adminRoles db ↔ ∃ u, h = .role u ∧ enabled db u = true ∧ Rests db h := by
  simp only [adminRoles, List.mem_map, mem_filter, Bool.and_eq_true, decide_eq_true_eq]
  constructor
  · rintro ⟨r, ⟨hr, hadmin, hen⟩, rfl⟩
    exact ⟨r.userId, rfl, hen, r, hr, hadmin, rfl⟩
  · rintro ⟨u, rfl, hen, r, hr, hadmin, rfl⟩
    exact ⟨r, ⟨hr, hadmin, hen⟩, rfl⟩

theorem mem_adminEntries :
    h ∈ adminEntries db ↔ ∃ u id, h = .entry u id ∧ enabled db u = true ∧ Rests db h := by
  simp only [adminEntries, List.mem_map, mem_filter, Bool.and_eq_true, decide_eq_true_eq]
  constructor
  · rintro ⟨e, ⟨he, ⟨⟨hk, hp⟩, hrole⟩, hen⟩, rfl⟩
    exact ⟨e.subjectId, e.id, rfl, hen, e, he, hk, hp, hrole, rfl, rfl⟩
  · rintro ⟨u, id, rfl, hen, e, he, hk, hp, hrole, rfl, rfl⟩
    exact ⟨e, ⟨he, ⟨⟨hk, hp⟩, hrole⟩, hen⟩, rfl⟩

def Holds (db : Db) (h : AdminHold) : Prop := enabled db h.userId = true ∧ Rests db h

theorem holds_iff : Holds db h ↔ h ∈ adminRoles db ∨ h ∈ adminEntries db := by
  rw [mem_adminRoles, mem_adminEntries]
  constructor
  · rintro ⟨hen, hrest⟩
    cases h with
    | role u => exact .inl ⟨u, rfl, hen, hrest⟩
    | entry u id => exact .inr ⟨u, id, rfl, hen, hrest⟩
  · rintro (⟨u, rfl, hen, hrest⟩ | ⟨u, id, rfl, hen, hrest⟩)
    · exact ⟨hen, hrest⟩
    · exact ⟨hen, hrest⟩

theorem mem_administrators : h ∈ administrators db ↔
    h.userId ∉ fenced db ∧ Holds db h := by
  rw [administrators, administratorsOf, mem_filter, mem_append, decide_eq_true_eq,
    holds_iff, and_comm]

theorem ownAdministrator_iff : OwnAdministrator db u ↔ ∃ h ∈ administrators db, h.userId = u := by
  unfold OwnAdministrator ownPrivileges
  simp only [resolve_eq, mem_privilegesOf]
  constructor
  · rintro ⟨hen, hall⟩
    -- Only Administrator holds `platform.users`.
    obtain ⟨hno, e, he, hg⟩ := hall .platformUsers
    have hrole : e.role = .administrator := by
      rcases hg with hg | ⟨hf, -⟩
      · exact platformUsers_mem_privileges.mp hg
      · exact absurd hf Bool.false_ne_true
    have hout : u ∉ fenced db := by
      intro hf
      obtain ⟨row, hrow, hk, hp, hr, rfl⟩ := mem_fenced.mp hf
      have hno' := hno (entryOf row .noAccess) (mem_own_root.mpr (.inl
        ⟨row, hrow, hk, hp, rfl, .noAccess, by rw [hr]; decide, rfl⟩))
      exact hno' rfl
    rcases mem_own_root.mp he with ⟨row, hrow, hk, hp, rfl, role, hr, rfl⟩ | ⟨r, hr, rfl, rfl⟩
    · refine ⟨.entry row.subjectId row.id, mem_administrators.mpr ⟨hout, hen, row, hrow, hk, hp, ?_,
        rfl, rfl⟩, rfl⟩
      rw [← text_of_isRoleId hr, show role = .administrator from hrole]
      rfl
    · refine ⟨.role r.userId, mem_administrators.mpr ⟨hout, hen, r, hr, ?_, rfl⟩, rfl⟩
      revert hrole
      change platformRole r.role = _ → _
      cases r.role <;> decide
  · rintro ⟨h, hh, rfl⟩
    obtain ⟨hout, hen, hrest⟩ := mem_administrators.mp hh
    have hno : ∀ e ∈ deciding [⟨.user, h.userId.text⟩] (load db).byPath ["/"],
        e.role ≠ .noAccess := by
      intro e he hrole
      rcases mem_own_root.mp he with ⟨row, hrow, hk, hp, hu, role, hr, rfl⟩ | ⟨r, -, -, rfl⟩
      · refine hout (mem_fenced.mpr ⟨row, hrow, hk, hp, ?_, hu⟩)
        rw [← text_of_isRoleId hr, show role = .noAccess from hrole]
        rfl
      · revert hrole
        change platformRole r.role = _ → _
        cases r.role <;> decide
    refine ⟨hen, fun q => ⟨hno, ?_⟩⟩
    cases h with
    | role u =>
      obtain ⟨r, hr, hadmin, rfl⟩ := hrest
      refine ⟨roleEntry r, mem_own_root.mpr (.inr ⟨r, hr, rfl, rfl⟩), .inl ?_⟩
      have hrole : (roleEntry r).role = .administrator := by
        change platformRole r.role = _
        rw [hadmin]
        rfl
      rw [hrole]
      exact mem_administrator_privileges q
    | entry u id =>
      obtain ⟨row, hrow, hk, hp, hr, rfl, rfl⟩ := hrest
      refine ⟨entryOf row .administrator, mem_own_root.mpr (.inl ⟨row, hrow, hk, hp, rfl,
        .administrator, by rw [hr]; decide, rfl⟩), .inl ?_⟩
      exact mem_administrator_privileges q

/-! ### What a write keeps -/

theorem exists_kept {all : List AdminHold} {lost : AdminHold → Bool} (hall : all ≠ [])
    (h : keepAnAdministrator all lost = .ok ()) : ∃ x ∈ all, lost x = false := by
  rcases need_eq_ok.mp h with hnone | hleft
  · obtain ⟨x, hx⟩ := exists_mem_of_ne_nil all hall
    refine ⟨x, hx, ?_⟩
    have := any_eq_false.mp hnone x hx
    simpa using this
  · obtain ⟨x, hx⟩ := exists_mem_of_ne_nil _ hleft
    rw [mem_filter] at hx
    exact ⟨x, hx.1, by simpa using hx.2⟩

theorem holds_of_entries (db db' : Db) (hu : db'.users = db.users)
    (hr : db'.platformRoles = db.platformRoles) (hh : Holds db h)
    (hrest : ∀ u id, h = .entry u id → Rests db h → Rests db' h) : Holds db' h := by
  obtain ⟨hen, hrests⟩ := hh
  refine ⟨?_, ?_⟩
  · unfold enabled at hen ⊢
    rwa [hu]
  · cases h with
    | role u =>
      unfold Rests at hrests ⊢
      rwa [hr]
    | entry u id => exact hrest u id rfl hrests

theorem holds_deleteEntry (hh : Holds db h)
    (hl : removeLost row h = false) : Holds (deleteEntry db row) h := by
  refine holds_of_entries db (deleteEntry db row) rfl rfl hh ?_
  rintro u id rfl ⟨e, he, hk, hp, hr, hu, hid⟩
  refine ⟨e, mem_aclEntries_deleteEntry.mpr ⟨he, fun hrow => ?_⟩, hk, hp, hr, hu, hid⟩
  rw [← hid, hrow] at hl
  simp [removeLost] at hl

theorem fenced_deleteEntry (h : u ∈ fenced (deleteEntry db row)) : u ∈ fenced db := by
  obtain ⟨e, he, hrest⟩ := mem_fenced.mp h
  exact mem_fenced.mpr ⟨e, (mem_aclEntries_deleteEntry.mp he).1, hrest⟩

theorem holds_insertEntry (hins : insertEntry db row = .ok db') (hh : Holds db h) : Holds db' h := by
  obtain ⟨hfree, rfl⟩ := insertEntry_ok hins
  refine holds_of_entries db (withEntry db row hfree) rfl rfl hh ?_
  rintro u id rfl ⟨e, he, hrest⟩
  exact ⟨e, mem_append_left _ he, hrest⟩

theorem fenced_insertEntry (hins : insertEntry db row = .ok db') (h : u ∈ fenced db') :
    u ∈ fenced db ∨
      row.kind = .user ∧ row.path = "/" ∧ row.role = "no-access" ∧ row.subjectId = u := by
  obtain ⟨hfree, rfl⟩ := insertEntry_ok hins
  obtain ⟨e, he, hrest⟩ := mem_fenced.mp h
  rcases mem_append.mp he with he | he
  · exact .inl (mem_fenced.mpr ⟨e, he, hrest⟩)
  · rw [mem_singleton.mp he] at hrest
    exact .inr hrest

theorem mem_aclEntries_deleteUserRow {e : AclEntryRow} :
    e ∈ (deleteUserRow db u).aclEntries ↔
      ∃ x ∈ db.aclEntries, (x.kind ≠ .user ∨ x.subjectId ≠ u) ∧ forgetAuthor u x = e := by
  simp only [deleteUserRow, List.mem_map, mem_filter, Bool.or_eq_true, decide_eq_true_eq, and_assoc]

theorem forgetAuthor_fields (u : Uuid) (e : AclEntryRow) :
    (forgetAuthor u e).kind = e.kind ∧ (forgetAuthor u e).path = e.path ∧
      (forgetAuthor u e).role = e.role ∧ (forgetAuthor u e).subjectId = e.subjectId := by
  unfold forgetAuthor
  split_ifs <;> exact ⟨rfl, rfl, rfl, rfl⟩

theorem fenced_deleteUserRow {v : Uuid} (h : v ∈ fenced (deleteUserRow db u)) : v ∈ fenced db := by
  obtain ⟨e, he, hk, hp, hr, hv⟩ := mem_fenced.mp h
  obtain ⟨x, hx, -, rfl⟩ := mem_aclEntries_deleteUserRow.mp he
  obtain ⟨hk', hp', hr', hs'⟩ := forgetAuthor_fields u x
  rw [hk'] at hk
  rw [hp'] at hp
  rw [hr'] at hr
  rw [hs'] at hv
  exact mem_fenced.mpr ⟨x, hx, hk, hp, hr, hv⟩

theorem holds_deleteUserRow (hh : Holds db h)
    (hl : deleteLost u h = false) : Holds (deleteUserRow db u) h := by
  have hne : h.userId ≠ u := by simpa [deleteLost] using hl
  obtain ⟨hen, hrest⟩ := hh
  refine ⟨?_, ?_⟩
  · unfold enabled at hen ⊢
    obtain ⟨r, hr, hcond⟩ := any_eq_true.mp hen
    refine any_eq_true.mpr ⟨r, mem_filter.mpr ⟨hr, decide_eq_true fun hru => hne ?_⟩, hcond⟩
    rw [Bool.and_eq_true, decide_eq_true_eq] at hcond
    rw [← hcond.1, hru]
  · cases h with
    | role v =>
      obtain ⟨r, hr, hadmin, hv⟩ := hrest
      refine ⟨r, mem_filter.mpr ⟨hr, decide_eq_true fun hru => hne ?_⟩, hadmin, hv⟩
      exact hv.symm.trans hru
    | entry v id =>
      obtain ⟨e, he, hk, hp, hr, hv, hid⟩ := hrest
      obtain ⟨hk', hp', hr', hs'⟩ := forgetAuthor_fields u e
      refine ⟨forgetAuthor u e, mem_aclEntries_deleteUserRow.mpr ⟨e, he, .inr fun hs => hne ?_,
        rfl⟩, hk'.trans hk, hp'.trans hp, hr'.trans hr, hs'.trans hv, ?_⟩
      · exact hv.symm.trans hs
      · exact (forgetAuthor_id u e).trans hid

theorem fenced_patchUser {body : PatchBody} {role : Option PlatformRole}
    (hw : patchUser db body u role = .ok db') : fenced db' = fenced db := by
  obtain ⟨-, hw⟩ := need_bind_eq_ok.mp hw
  obtain ⟨-, hw⟩ := need_bind_eq_ok.mp hw
  obtain rfl := ok.inj hw
  rfl

/-- Patching a user keeps everyone else's holds, and the user's own unless it disables the user or
takes the role the hold rests on. -/
theorem holds_patchUser {body : PatchBody} {role : Option PlatformRole}
    (hw : patchUser db body u role = .ok db') (hh : Holds db h)
    (hl : patchLost body u h = false) : Holds db' h := by
  obtain ⟨-, hw⟩ := need_bind_eq_ok.mp hw
  obtain ⟨-, hw⟩ := need_bind_eq_ok.mp hw
  obtain rfl := ok.inj hw
  obtain ⟨hen, hrest⟩ := hh
  refine ⟨?_, ?_⟩
  · unfold enabled at hen ⊢
    obtain ⟨r, hr, hcond⟩ := any_eq_true.mp hen
    rw [Bool.and_eq_true, decide_eq_true_eq] at hcond
    refine any_eq_true.mpr ⟨_, List.mem_map.mpr ⟨r, hr, rfl⟩, ?_⟩
    by_cases hru : r.id = u
    · have hdis : body.disabled ≠ some true := by
        intro hd
        rw [hcond.1] at hru
        simp [patchLost, hru, hd] at hl
      rw [if_pos hru, Bool.and_eq_true, decide_eq_true_eq]
      refine ⟨hcond.1, ?_⟩
      cases hd : body.disabled with
      | none => simpa using hcond.2
      | some b =>
        cases b with
        | true => exact absurd hd hdis
        | false => rfl
    · rw [if_neg hru, Bool.and_eq_true, decide_eq_true_eq]
      exact hcond
  · cases h with
    | entry v id => exact hrest
    | role v =>
      obtain ⟨r, hr, hadmin, rfl⟩ := hrest
      cases hnew : newRole body role with
      | none => exact ⟨r, by simpa [hnew] using hr, hadmin, rfl⟩
      | some x =>
        by_cases hru : r.userId = u
        · -- The role is set, and to admin: otherwise the hold was lost.
          have hbody : body.platformRole = some x := (filter_eq_some_iff.mp hnew).1
          have hx : x = some .admin := by
            by_contra hx
            simp [patchLost, AdminHold.userId, hru, dropsRole, hbody, hx] at hl
          refine ⟨⟨u, .admin⟩, ?_, rfl, hru.symm⟩
          simp [hx]
        · refine ⟨r, ?_, hadmin, rfl⟩
          simp [hr, hru]

/-! ### Runs -/

/-- No access on `/` for a user is asked for in the database's spelling of its id. -/
def Request.Spelled : Request → Prop
  | .createEntry _ body _ => body.kind = .user → body.path = "/" → body.role = "no-access" →
      canonical body.id = body.id
  | _ => True

def Change.Faithful : Change → Prop
  | .create body row => row.kind = body.kind ∧ row.path = body.path ∧ row.role = body.role ∧
      (row.kind = .user → row.path = "/" → row.role = "no-access" → row.subjectId.text = body.id)
  | _ => True

theorem faithful_of_checks {s : Snapshot} {r : Request} (hr : r.Spelled)
    (h : r.checks s db = .ok c) : c.Faithful := by
  cases r with
  | patchUser p id body =>
    obtain ⟨x, -, h⟩ := bind_eq_ok.mp h
    obtain rfl := ok.inj h
    trivial
  | deleteUser p id =>
    obtain ⟨x, -, h⟩ := bind_eq_ok.mp h
    obtain rfl := ok.inj h
    trivial
  | removeEntry p id =>
    obtain ⟨x, -, h⟩ := bind_eq_ok.mp h
    obtain rfl := ok.inj h
    trivial
  | createEntry p body id =>
    obtain ⟨row, hchecks, h⟩ := bind_eq_ok.mp h
    obtain rfl := ok.inj h
    have hrow := createChecks_ok hchecks
    refine ⟨hrow.kind, hrow.path, hrow.role, fun hk hp hno => ?_⟩
    rw [hrow.kind] at hk
    rw [hrow.path] at hp
    rw [hrow.role] at hno
    exact hrow.subjectId.trans (hr hk hp hno)

/-- The change is No access on `/` for a user, which fences the user off. -/
def Change.fences : Change → Bool
  | .create body _ => body.kind = .user && body.path = "/" && body.role = "no-access"
  | _ => false

theorem holds_write (hw : c.write db = .ok db')
    (hh : Holds db h) (hl : c.lost h = false) : Holds db' h := by
  cases c with
  | patch body u role => exact holds_patchUser hw hh hl
  | create body row => exact holds_insertEntry hw hh
  | delete u =>
    obtain rfl := ok.inj hw
    exact holds_deleteUserRow hh hl
  | remove row =>
    obtain rfl := ok.inj hw
    exact holds_deleteEntry hh hl

theorem fenced_write (hf : c.Faithful) (hw : c.write db = .ok db') (hout : h.userId ∈ fenced db') :
    h.userId ∈ fenced db ∨ c.fences = true ∧ c.lost h = true := by
  cases c with
  | patch body u role =>
    rw [fenced_patchUser hw] at hout
    exact .inl hout
  | delete u =>
    obtain rfl := ok.inj hw
    exact .inl (fenced_deleteUserRow hout)
  | remove row =>
    obtain rfl := ok.inj hw
    exact .inl (fenced_deleteEntry hout)
  | create body row =>
    obtain ⟨hk, hp, hr, hid⟩ := hf
    rcases fenced_insertEntry hw hout with hout | ⟨hku, hpu, hru, hu⟩
    · exact .inl hout
    · have hbody : h.userId.text = body.id := by rw [← hu, hid hku hpu hru]
      rw [hk] at hku
      rw [hp] at hpu
      rw [hr] at hru
      refine .inr ⟨?_, ?_⟩
      · simp [Change.fences, hku, hpu, hru]
      · simp [Change.lost, createLost, hku, hpu, hru, hbody]

theorem lost_of_not_guarded (h : c.guarded = false) (x : AdminHold) : c.lost x = false := by
  cases c with
  | create body row =>
    have hlost : createLost body x =
        ((body.kind = .user && body.path = "/" && body.role = "no-access") &&
          decide (x.userId.text = body.id)) := rfl
    change createLost body x = false
    rw [hlost, show (decide (body.kind = .user) && decide (body.path = "/") &&
      decide (body.role = "no-access")) = false from h]
    rfl
  | _ => cases h

theorem kept_write (hf : c.Faithful)
    (hw : c.write db = .ok db') (hh : h ∈ administrators db) (hl : c.lost h = false) :
    h ∈ administrators db' := by
  obtain ⟨hout, hholds⟩ := mem_administrators.mp hh
  refine mem_administrators.mpr ⟨fun hfenced => ?_, holds_write hw hholds hl⟩
  rcases fenced_write hf hw hfenced with h | ⟨-, h⟩
  · exact hout h
  · rw [hl] at h
    cases h

def Change.harmless (db : Db) (c : Change) : Bool :=
  !c.fences && (adminRoles db ++ adminEntries db).all fun h => !c.lost h

def Server.changeOf (st : Server) (i : ℕ) : Option Change :=
  match st.requests[i]? with
  | some (_, .guarding c _ _ _) => some c
  | _ => none

/-- No write that drops a hold or fences someone off happens between the first query of another
request's guard and its write. -/
def Undisturbed (st : Server) : Action → Prop
  | .write i => ∀ c ∈ st.changeOf i,
      c.harmless st.db = true ∨ ∀ x ∈ st.requests.eraseIdx i, x.2.reading = false
  | _ => True

instance (st : Server) (a : Action) : Decidable (Undisturbed st a) := by
  cases a <;> unfold Undisturbed <;> infer_instance

def Counts (roles entries : Option (List AdminHold)) (out : Option (List Uuid)) (h : AdminHold) :
    Prop :=
  (match h with
    | .role _ => ∀ x ∈ roles, h ∈ x
    | .entry _ _ => ∀ x ∈ entries, h ∈ x) ∧ ∀ x ∈ out, h.userId ∉ x

/-- The guard's answers so far: what they hold is still held, whom they do not fence off nobody
does, and they count some administrator. -/
structure Answers (db : Db) (roles entries : Option (List AdminHold)) (out : Option (List Uuid)) :
    Prop where
  holdRoles : ∀ x ∈ roles, ∀ h ∈ x, Holds db h
  holdEntries : ∀ x ∈ entries, ∀ h ∈ x, Holds db h
  fencedOut : ∀ x ∈ out, ∀ u ∈ fenced db, u ∈ x
  counts : ∃ h ∈ administrators db, Counts roles entries out h

/-- A request's change is what it asks for, and its answers are still right. -/
def Sound (db : Db) : Request × Phase → Prop
  | (r, .start) => r.Spelled
  | (_, .guarding c roles entries out) => c.Faithful ∧ Answers db roles entries out
  | (_, .done) => True

def Safe (st : Server) : Prop := administrators st.db ≠ [] ∧ ∀ x ∈ st.requests, Sound st.db x

/-! ### The guard's queries -/

theorem answers_none (h : administrators db ≠ []) : Answers db none none none := by
  obtain ⟨x, hx⟩ := exists_mem_of_ne_nil _ h
  refine ⟨by simp, by simp, by simp, x, hx, ?_, by simp⟩
  cases x with
  | role u => simp
  | entry u id => simp

variable {out : Option (List Uuid)}

theorem Answers.readRoles {entries : Option (List AdminHold)}
    (h : Answers db none entries out) : Answers db (some (adminRoles db)) entries out := by
  obtain ⟨x, hx, hcounts, hout⟩ := h.counts
  refine ⟨fun y hy z hz => ?_, h.holdEntries, h.fencedOut, x, hx, ?_, hout⟩
  · obtain rfl := some.inj hy
    exact holds_iff.mpr (.inl hz)
  · cases x with
    | role u =>
      intro y hy
      obtain rfl := some.inj hy
      obtain ⟨hen, hrest⟩ := (mem_administrators.mp hx).2
      exact mem_adminRoles.mpr ⟨u, rfl, hen, hrest⟩
    | entry u id => exact hcounts

theorem Answers.readEntries {roles : Option (List AdminHold)}
    (h : Answers db roles none out) : Answers db roles (some (adminEntries db)) out := by
  obtain ⟨x, hx, hcounts, hout⟩ := h.counts
  refine ⟨h.holdRoles, fun y hy z hz => ?_, h.fencedOut, x, hx, ?_, hout⟩
  · obtain rfl := some.inj hy
    exact holds_iff.mpr (.inr hz)
  · cases x with
    | role u => exact hcounts
    | entry u id =>
      intro y hy
      obtain rfl := some.inj hy
      obtain ⟨hen, hrest⟩ := (mem_administrators.mp hx).2
      exact mem_adminEntries.mpr ⟨u, id, rfl, hen, hrest⟩

theorem Answers.readFenced {roles entries : Option (List AdminHold)}
    (h : Answers db roles entries none) : Answers db roles entries (some (fenced db)) := by
  obtain ⟨x, hx, hcounts, -⟩ := h.counts
  refine ⟨h.holdRoles, h.holdEntries, fun y hy u hu => ?_, x, hx, hcounts, fun y hy => ?_⟩
  · obtain rfl := some.inj hy
    exact hu
  · obtain rfl := some.inj hy
    exact (mem_administrators.mp hx).1

theorem Answers.exists_kept {roles entries : List AdminHold} {out : List Uuid}
    {lost : AdminHold → Bool} (h : Answers db (some roles) (some entries) (some out))
    (hkeep : keepAnAdministrator (administratorsOf roles entries out) lost = .ok ()) :
    ∃ x ∈ administrators db, lost x = false := by
  obtain ⟨x, hx, hcounts, hout⟩ := h.counts
  have hcounted : x ∈ administratorsOf roles entries out := by
    refine mem_filter.mpr ⟨mem_append.mpr ?_, decide_eq_true (hout out rfl)⟩
    cases x with
    | role u => exact .inl (hcounts roles rfl)
    | entry u id => exact .inr (hcounts entries rfl)
  obtain ⟨y, hy, hl⟩ := Api.exists_kept (ne_nil_of_mem hcounted) hkeep
  obtain ⟨hmem, hyout⟩ := mem_filter.mp hy
  refine ⟨y, mem_administrators.mpr ⟨fun hf => ?_, ?_⟩, hl⟩
  · exact of_decide_eq_true hyout (h.fencedOut out rfl _ hf)
  · rcases mem_append.mp hmem with hmem | hmem
    · exact h.holdRoles roles rfl y hmem
    · exact h.holdEntries entries rfl y hmem

/-! ### One step -/

theorem harmless_write (hf : c.Faithful) (hw : c.write db = .ok db')
    (hc : c.harmless db = true) :
    (∀ h, Holds db h → Holds db' h) ∧ ∀ u ∈ fenced db', u ∈ fenced db := by
  obtain ⟨hfences, hall⟩ := Bool.and_eq_true_iff.mp hc
  refine ⟨fun h hh => holds_write hw hh ?_, fun u hu => ?_⟩
  · have := all_eq_true.mp hall h (mem_append.mpr (holds_iff.mp hh))
    simpa using this
  · -- `fenced_write` speaks of holds; any hold of the user will do.
    rcases fenced_write hf hw (h := .role u) hu with h | ⟨h, -⟩
    · exact h
    · rw [h] at hfences
      cases hfences

theorem Answers.harmless {roles entries : Option (List AdminHold)} (h : Answers db roles entries out)
    (hholds : ∀ h, Holds db h → Holds db' h) (hfenced : ∀ u ∈ fenced db', u ∈ fenced db) :
    Answers db' roles entries out := by
  obtain ⟨x, hx, hcounts⟩ := h.counts
  obtain ⟨hout, hh⟩ := mem_administrators.mp hx
  exact ⟨fun y hy z hz => hholds z (h.holdRoles y hy z hz),
    fun y hy z hz => hholds z (h.holdEntries y hy z hz), fun y hy u hu => h.fencedOut y hy u (hfenced u hu),
    x, mem_administrators.mpr ⟨fun hf => hout (hfenced _ hf), hholds x hh⟩, hcounts⟩

theorem Safe.put {st : Server} (h : Safe st) {i : ℕ} {r : Request} {phase : Phase}
    (hs : Sound st.db (r, phase)) : Safe (st.put i r phase) := by
  refine ⟨h.1, fun x hx => ?_⟩
  rcases mem_or_eq_of_mem_set hx with hx | rfl
  · exact h.2 x hx
  · exact hs

theorem Sound.of_not_reading {x : Request × Phase} (h : Sound db x)
    (hadmin : administrators db' ≠ []) (hr : x.2.reading = false) : Sound db' x := by
  obtain ⟨r, phase⟩ := x
  cases phase with
  | start => exact h
  | done => trivial
  | guarding c roles entries out =>
    simp only [Phase.reading, Bool.or_eq_false_iff, isSome_eq_false_iff, isNone_iff_eq_none] at hr
    obtain ⟨⟨rfl, rfl⟩, rfl⟩ := hr
    exact ⟨h.1, answers_none hadmin⟩

theorem Sound.harmless {x : Request × Phase} (h : Sound db x)
    (hholds : ∀ h, Holds db h → Holds db' h) (hfenced : ∀ u ∈ fenced db', u ∈ fenced db) :
    Sound db' x := by
  obtain ⟨r, phase⟩ := x
  cases phase with
  | start => exact h
  | done => trivial
  | guarding c roles entries out => exact ⟨h.1, h.2.harmless hholds hfenced⟩

theorem Safe.commit {st : Server} (h : Safe st) {i : ℕ} {r : Request}
    (hf : c.Faithful)
    (hu : c.harmless st.db = true ∨ ∀ x ∈ st.requests.eraseIdx i, x.2.reading = false)
    (hkept : ∃ x ∈ administrators st.db, c.lost x = false) : Safe (st.commit i r c) := by
  unfold Server.commit
  cases hw : c.write st.db with
  | error e => exact h.put trivial
  | ok db' =>
    obtain ⟨y, hy, hl⟩ := hkept
    have hadmin : administrators db' ≠ [] := ne_nil_of_mem (kept_write hf hw hy hl)
    refine ⟨hadmin, fun x hx => ?_⟩
    -- The others' answers are still right: the write was harmless, or there are none yet.
    have hx' : x = (r, .done) ∨ x ∈ st.requests.eraseIdx i := by
      rcases mem_iff_getElem?.mp hx with ⟨j, hj⟩
      rw [List.getElem?_set] at hj
      split_ifs at hj with hij hlt
      · exact .inl (some.inj hj).symm
      · exact .inr (mem_eraseIdx_iff_getElem?.mpr ⟨j, fun he => hij he.symm, hj⟩)
    rcases hx' with rfl | hx'
    · trivial
    · have hsound := h.2 x (mem_of_mem_eraseIdx hx')
      rcases hu with hharmless | hquiet
      · obtain ⟨hholds, hfenced⟩ := harmless_write hf hw hharmless
        exact hsound.harmless hholds hfenced
      · exact hsound.of_not_reading hadmin (hquiet x hx')

theorem Safe.step {st st' : Server} {a : Action} (h : Safe st) (hu : Undisturbed st a)
    (hs : step st a = some st') : Safe st' := by
  have hget : ∀ {i r phase}, st.requests[i]? = some (r, phase) → Sound st.db (r, phase) :=
    fun hi => h.2 _ (mem_of_getElem? hi)
  cases a with
  | check i k =>
    simp only [Api.step] at hs
    split at hs
    · rename_i r d hi _
      split at hs
      · rename_i c hc
        obtain rfl := some.inj hs
        exact h.put ⟨faithful_of_checks (hget hi) hc, answers_none h.1⟩
      · obtain rfl := some.inj hs
        exact h.put trivial
    · exact nomatch hs
  | readRoles i =>
    simp only [Api.step] at hs
    split at hs
    · rename_i r c entries out hi
      split_ifs at hs
      obtain rfl := some.inj hs
      exact h.put ⟨(hget hi).1, (hget hi).2.readRoles⟩
    · exact nomatch hs
  | readEntries i =>
    simp only [Api.step] at hs
    split at hs
    · rename_i r c roles out hi
      split_ifs at hs
      obtain rfl := some.inj hs
      exact h.put ⟨(hget hi).1, (hget hi).2.readEntries⟩
    · exact nomatch hs
  | readFenced i =>
    simp only [Api.step] at hs
    split at hs
    · rename_i r c roles entries hi
      split_ifs at hs
      obtain rfl := some.inj hs
      exact h.put ⟨(hget hi).1, (hget hi).2.readFenced⟩
    · exact nomatch hs
  | write i =>
    simp only [Api.step] at hs
    split at hs
    · rename_i r c roles entries out hi
      obtain ⟨hf, hanswers⟩ := hget hi
      have hquiet : c.harmless st.db = true ∨
          ∀ x ∈ st.requests.eraseIdx i, x.2.reading = false := by
        refine hu c ?_
        unfold Server.changeOf
        rw [hi]
        rfl
      split_ifs at hs with hg
      · -- Unguarded: nobody is dropped.
        obtain rfl := some.inj hs
        obtain ⟨x, hx⟩ := exists_mem_of_ne_nil _ h.1
        exact h.commit hf hquiet ⟨x, hx, lost_of_not_guarded hg x⟩
      · split at hs
        · rename_i roles entries out
          split at hs
          · rename_i hkeep
            obtain rfl := some.inj hs
            exact h.commit hf hquiet (hanswers.exists_kept hkeep)
          · obtain rfl := some.inj hs
            exact h.put trivial
        · exact nomatch hs
    · exact nomatch hs
  | abort i =>
    simp only [Api.step] at hs
    split at hs
    · obtain rfl := some.inj hs
      exact h.put trivial
    · exact nomatch hs

/-- **Someone always stays an administrator**, in every run whose writes are undisturbed and whose
requests spell the users they fence off as the database does. -/
theorem someone_stays_administrator (start st : Server)
    (hstart : ∀ x ∈ start.requests, x.2 = .start ∧ x.1.Spelled)
    (hadmin : ∃ u, OwnAdministrator start.db u) (hrun : Run step Undisturbed start st) :
    ∃ u, OwnAdministrator st.db u := by
  have hiff : ∀ db, (∃ u, OwnAdministrator db u) ↔ administrators db ≠ [] := by
    intro db
    simp only [ownAdministrator_iff]
    constructor
    · rintro ⟨-, h, hh, -⟩
      exact ne_nil_of_mem hh
    · intro hne
      obtain ⟨h, hh⟩ := exists_mem_of_ne_nil _ hne
      exact ⟨h.userId, h, hh, rfl⟩
  rw [hiff] at hadmin ⊢
  have hsafe : Safe start := by
    refine ⟨hadmin, fun x hx => ?_⟩
    obtain ⟨r, phase⟩ := x
    obtain ⟨hp, hsp⟩ := hstart _ hx
    obtain rfl : phase = .start := hp
    exact hsp
  exact (hrun.invariant hsafe fun t a u ht hok hs => ht.step hok hs).1

/-! ### Two administrators -/

def adminA : Uuid := idA1

def adminB : Uuid := ⟨"00000000-0000-0000-0000-0000000000a2", by decide⟩

def twoAdmins : Db where
  users := [⟨adminA, "a@example.net", false⟩, ⟨adminB, "b@example.net", false⟩]
  platformRoles := [⟨adminA, .admin⟩, ⟨adminB, .admin⟩]
  aclEntries_ids := aclEntries_ids_nil
  tenantMembers_keys := tenantMembers_keys_nil

/-- `PATCH` of a user by an administrator, to disable it. -/
def disable (actor user : Uuid) : Request × Phase :=
  (.patchUser ⟨false, actor⟩ user.text ⟨none, some true, none, none⟩, .start)

def guardOf (i : ℕ) : List Action := [.readRoles i, .readEntries i, .readFenced i]

/-- One administrator disables the other: someone is left. -/
theorem someone_stays_administrator_disable :
    ∃ st, Run step Undisturbed ⟨twoAdmins, [], [disable adminA adminB]⟩ st ∧
      st.db.users = [⟨adminA, "a@example.net", false⟩, ⟨adminB, "b@example.net", true⟩] ∧
      ∃ u, OwnAdministrator st.db u := by
  have hexec : ((Run.exec step Undisturbed ⟨twoAdmins, [], [disable adminA adminB]⟩
      (.check 0 0 :: guardOf 0 ++ [.write 0])).map fun st => st.db.users) =
        some [⟨adminA, "a@example.net", false⟩, ⟨adminB, "b@example.net", true⟩] := by decide
  obtain ⟨st, hst, husers⟩ := map_eq_some_iff.mp hexec
  have hrun := Run.of_exec .refl hst
  refine ⟨st, hrun, husers, someone_stays_administrator _ st ?_ ⟨adminA, ?_⟩ hrun⟩
  · simp [disable, Request.Spelled]
  · rw [ownAdministrator_iff]
    exact ⟨.role adminA, by decide, rfl⟩

/-- Each disables the other, both guards before both writes: nobody is left. -/
theorem administrators_disable_each_other :
    ¬ ∀ start st : Server, (∀ x ∈ start.requests, x.2 = .start) →
      (∃ u, enabled start.db u = true ∧ isAdministrator (load start.db) ⟨false, u⟩ = true) →
      Run step (fun _ _ => True) start st → ∃ u, OwnAdministrator st.db u := by
  intro h
  have hexec : ((Run.exec step (fun _ _ => True)
      ⟨twoAdmins, [], [disable adminA adminB, disable adminB adminA]⟩
      ([.check 0 0, .check 1 0] ++ guardOf 0 ++ guardOf 1 ++ [.write 0, .write 1])).map
        fun st => administrators st.db) = some [] := by decide
  obtain ⟨st, hst, hnone⟩ := map_eq_some_iff.mp hexec
  obtain ⟨u, hu⟩ := h _ st (by simp [disable]) ⟨adminA, by decide, by decide⟩
    (Run.of_exec .refl hst)
  obtain ⟨x, hx, -⟩ := ownAdministrator_iff.mp hu
  rw [hnone] at hx
  simp at hx

end IncusCloud.Api
