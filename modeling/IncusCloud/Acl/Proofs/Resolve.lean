import IncusCloud.Acl.Acl
import IncusCloud.Acl.Proofs.Paths

/-!
# What decides

One lemma for each step of a resolution: which entries count on a level (`mem_here`), what the
deciding entries are (`preferOwn`), which privileges they give (`mem_privilegesOf`), and how
`Snapshot.decide` puts a path's resolutions together (`decide_eq_resolve`, `mem_privileges_inst`).
-/

open List

namespace IncusCloud.Acl

open Lib (firstHit firstHit_cons_of_eq_nil firstHit_cons_of_ne_nil firstHit_eq_nil
  exists_of_mem_firstHit)
variable {subjects : List Subject} {byPath : String → List Entry} {e x : Entry} {s : Snapshot}
  {path : String} {subject : Subject} {db : Db}

/-! ### One level -/

theorem mem_here {l : String × Bool} : e ∈ here subjects byPath l ↔
      e ∈ byPath l.1 ∧ e.subject ∈ subjects ∧ (l.2 = true ∨ e.propagate = true) := by
  simp [here]

theorem mem_byPath : e ∈ s.byPath path ↔ e ∈ s.entries ∧ e.path = path := by
  simp [Snapshot.byPath]

theorem here_false (subjects : List Subject) (byPath : String → List Entry) (path : String) :
    here subjects byPath (path, false) =
      (here subjects byPath (path, true)).filter (·.propagate) := by
  simp only [here, filter_filter, Bool.true_or, Bool.and_true, Bool.false_or]
  refine filter_congr fun e _ => ?_
  rw [Bool.and_comm]

variable {es : List Entry}

theorem preferOwn_subset (h : e ∈ preferOwn subjects es) : e ∈ es := by
  unfold preferOwn at h
  dsimp only at h
  split_ifs at h
  · exact h
  · exact mem_of_mem_filter h

theorem preferOwn_eq_nil : preferOwn subjects es = [] ↔ es = [] := by
  unfold preferOwn
  dsimp only
  split_ifs with h
  · rfl
  · constructor
    · intro h'
      exact absurd (by simp [h']) h
    · rintro rfl
      rfl

/-! ### A chain -/

def deciding (subjects : List Subject) (byPath : String → List Entry) (chain : List String) :
    List Entry :=
  preferOwn subjects (firstHit (here subjects byPath) (levels chain))

theorem resolve_eq (subjects : List Subject) (byPath : String → List Entry) (chain : List String)
    (owned : Bool) : resolve subjects byPath chain owned =
      ⟨privilegesOf owned (deciding subjects byPath chain), deciding subjects byPath chain⟩ := rfl

theorem deciding_eq_nil
    {chain : List String} : deciding subjects byPath chain = [] ↔
      ∀ l ∈ levels chain, here subjects byPath l = [] := by
  rw [deciding, preferOwn_eq_nil, firstHit_eq_nil]

theorem path_mem_of_mem_deciding {chain : List String} (h : e ∈ deciding subjects s.byPath chain) : e.path ∈ chain := by
  obtain ⟨l, hl, -, he⟩ := exists_of_mem_firstHit (preferOwn_subset h)
  have hpath : e.path = l.1 := (mem_byPath.mp (mem_here.mp he).1).2
  rw [hpath]
  cases chain with
  | nil => simp [levels] at hl
  | cons p ps =>
    rcases mem_cons.mp hl with rfl | hl
    · exact mem_cons_self
    · obtain ⟨x, hx, rfl⟩ := List.mem_map.mp hl
      exact mem_cons_of_mem _ hx

def gives (owned : Bool) (q : Privilege) (e : Entry) : Prop :=
  q ∈ e.role.privileges ∨ owned = true ∧ q ∈ e.role.ownedOnly

theorem mem_privilegesOf {owned : Bool} {q : Privilege} :
    q ∈ privilegesOf owned es ↔ (∀ e ∈ es, e.role ≠ .noAccess) ∧ ∃ e ∈ es, gives owned q e := by
  unfold privilegesOf
  by_cases h : es.any (fun e => decide (e.role = .noAccess)) = true
  · obtain ⟨e, he, hr⟩ := any_eq_true.mp h
    rw [if_pos h]
    simp only [not_mem_nil, false_iff, not_and]
    intro hall
    exact absurd (of_decide_eq_true hr) (hall e he)
  · have hall : ∀ e ∈ es, e.role ≠ .noAccess := by
      intro e he hr
      exact h (any_eq_true.mpr ⟨e, he, decide_eq_true hr⟩)
    rw [if_neg h, mem_flatMap, and_iff_right hall]
    refine exists_congr fun e => and_congr_right fun _ => ?_
    rw [mem_append, gives]
    refine or_congr_right ?_
    cases owned <;> simp

/-! ### `decide` -/

theorem decide_of_not_parse (h : parsePath path = none)
    (subject : Subject) (owner : Option Subject) : s.decide subject path owner = ⟨[], []⟩ := by
  simp [Snapshot.decide, h]

theorem decide_of_disabled (h : subject ∈ s.disabled)
    (path : String) (owner : Option Subject) : s.decide subject path owner = ⟨[], []⟩ := by
  unfold Snapshot.decide
  cases parsePath path with
  | none => rfl
  | some parsed => simp [h]

theorem decide_eq_resolve (hs : subject ∉ s.disabled) {p : AclPath} (hp : parsePath path = some p)
    (hsides : (∀ c q i, p ≠ .inst c q i) ∨ s.locatedIn path = []) :
    s.decide subject path none =
      resolve (s.keysOf subject) s.byPath (chain s.tenantOf p) (s.owns none subject path) := by
  unfold Snapshot.decide
  rw [hp]
  cases p with
  | inst c q i =>
    have hl : s.locatedIn path = [] := by
      rcases hsides with h | h
      · exact absurd rfl (h c q i)
      · exact h
    simp [hs, hl]
  | _ => simp [hs]

theorem deciding_of_head
    {ps : List String} (h : deciding subjects byPath [path] ≠ []) :
    deciding subjects byPath (path :: ps) = deciding subjects byPath [path] := by
  have hne : here subjects byPath (path, true) ≠ [] := by
    intro he
    exact h (deciding_eq_nil.mpr (by simp [levels, he]))
  simp only [deciding, levels]
  rw [firstHit_cons_of_ne_nil _ hne, firstHit_cons_of_ne_nil _ hne]

theorem deciding_of_head_nil {ps : List String} (h : deciding subjects byPath [path] = []) :
    deciding subjects byPath (path :: ps) =
      preferOwn subjects (firstHit (here subjects byPath) (ps.map (·, false))) := by
  have hnil : here subjects byPath (path, true) = [] :=
    deciding_eq_nil.mp h (path, true) (by simp [levels])
  simp only [deciding, levels]
  rw [firstHit_cons_of_eq_nil _ hnil]

theorem chain_inst (tenantOf : String → String → Option String) (c p i : String) :
    chain tenantOf (.inst c p i) = formatPath (.inst c p i) :: chain tenantOf (.project c p) := by
  simp [chain]

/-- **Instances**: own entries decide alone; otherwise what the project's side or the side of a
group gives counts. -/
theorem mem_privileges_inst (hs : subject ∉ s.disabled)
    {c p i : String} (hp : parsePath path = some (.inst c p i)) (q : Privilege) :
    q ∈ s.privileges subject path ↔
      if deciding (s.keysOf subject) s.byPath [path] ≠ [] then
        q ∈ privilegesOf (s.owns none subject path) (deciding (s.keysOf subject) s.byPath [path])
      else
        q ∈ privilegesOf (s.owns none subject path)
            (deciding (s.keysOf subject) s.byPath (chain s.tenantOf (.inst c p i))) ∨
          ∃ g ∈ s.locatedIn path, q ∈ privilegesOf (s.owns none subject path)
            (deciding (s.keysOf subject) s.byPath [path, g]) := by
  have hpath : formatPath (.inst c p i) = path := (formatPath_of_parsePath hp).1
  by_cases hl : s.locatedIn path = []
  · -- In no group: the chain alone is resolved, and its first level is the instance's own.
    rw [Snapshot.privileges, decide_eq_resolve hs hp (.inr hl), resolve_eq]
    split_ifs with hown
    · rw [chain_inst, hpath, deciding_of_head hown]
    · simp [hl]
  · have hl' : (s.locatedIn path).isEmpty = false := by simpa using hl
    have hd : s.decide subject path none =
        if deciding (s.keysOf subject) s.byPath [path] ≠ [] then
          resolve (s.keysOf subject) s.byPath [path] (s.owns none subject path)
        else
          Snapshot.combine
            (resolve (s.keysOf subject) s.byPath (chain s.tenantOf (.inst c p i))
                (s.owns none subject path) ::
              (s.locatedIn path).map fun g =>
                resolve (s.keysOf subject) s.byPath [path, g] (s.owns none subject path)) := by
      simp [Snapshot.decide, hp, hs, hl', resolve_eq]
    rw [Snapshot.privileges, hd]
    split_ifs with hown
    · rw [resolve_eq]
    · simp [Snapshot.combine, resolve_eq]

theorem decidedBy_of_own (hs : subject ∉ s.disabled)
    {c p i : String} (hp : parsePath path = some (.inst c p i))
    (hown : deciding (s.keysOf subject) s.byPath [path] ≠ []) :
    (s.decide subject path none).decidedBy = deciding (s.keysOf subject) s.byPath [path] := by
  have hpath : formatPath (.inst c p i) = path := (formatPath_of_parsePath hp).1
  by_cases hl : s.locatedIn path = []
  · rw [decide_eq_resolve hs hp (.inr hl), resolve_eq, chain_inst, hpath]
    exact deciding_of_head hown
  · have hl' : (s.locatedIn path).isEmpty = false := by simpa using hl
    simp [Snapshot.decide, hp, hs, hl', resolve_eq, hown]

/-- The entries that decide for an instance without its own: those of its project's side and those
of its groups' sides. -/
theorem mem_decidedBy_inst (hs : subject ∉ s.disabled)
    {c p i : String} (hp : parsePath path = some (.inst c p i))
    (hown : deciding (s.keysOf subject) s.byPath [path] = []) (e : Entry) :
    e ∈ (s.decide subject path none).decidedBy ↔
      e ∈ deciding (s.keysOf subject) s.byPath (chain s.tenantOf (.inst c p i)) ∨
        ∃ g ∈ s.locatedIn path, e ∈ deciding (s.keysOf subject) s.byPath [path, g] := by
  by_cases hl : s.locatedIn path = []
  · rw [decide_eq_resolve hs hp (.inr hl), resolve_eq]
    simp [hl]
  · have hl' : (s.locatedIn path).isEmpty = false := by simpa using hl
    have hd : s.decide subject path none = Snapshot.combine
        (resolve (s.keysOf subject) s.byPath (chain s.tenantOf (.inst c p i))
            (s.owns none subject path) ::
          (s.locatedIn path).map fun g =>
            resolve (s.keysOf subject) s.byPath [path, g] (s.owns none subject path)) := by
      simp [Snapshot.decide, hp, hs, hl', resolve_eq, hown]
    -- `combine` lists each entry once.
    have hfold : ∀ es out : List Entry,
        e ∈ es.foldl (fun out e => if e ∈ out then out else out ++ [e]) out ↔ e ∈ out ∨ e ∈ es := by
      intro es
      induction es with
      | nil => simp
      | cons d es ih =>
        intro out
        rw [foldl_cons, ih, mem_cons]
        split_ifs with hd
        · constructor
          · exact fun h => h.imp_right .inr
          · rintro (h | rfl | h)
            · exact .inl h
            · exact .inl hd
            · exact .inr h
        · rw [mem_append, mem_singleton, or_assoc]
    rw [hd, Snapshot.combine, hfold]
    simp [resolve_eq]

/-!
### The entries of a loaded snapshot

Which rows the entries of `load` come from: explicit ones from `acl_entries`
(`mem_explicitEntries`), the others from the role tables (`mem_virtualEntries`), and what the two
kinds have in common.
-/

def entryOf (row : AclEntryRow) (role : RoleId) : Entry :=
  { id := row.id.text, path := row.path, subject := entrySubject row, role,
    propagate := row.propagate, source := .acl }

def roleEntry (r : PlatformRoleRow) : Entry :=
  { id := "platform-role:" ++ r.userId.text, path := "/", subject := ⟨.user, r.userId.text⟩,
    role := platformRole r.role, propagate := true, source := .platformRole }

theorem mem_explicitEntries : x ∈ explicitEntries db ↔
    ∃ row ∈ db.aclEntries, ∃ role, isRoleId row.role = some role ∧ entryOf row role = x := by
  simp only [explicitEntries, List.mem_filterMap, Option.map_eq_some_iff]
  exact Iff.rfl

theorem mem_virtualEntries (h : x ∈ virtualEntries db) :
    (∃ r ∈ db.platformRoles, x = roleEntry r) ∨
      (x.source = .tenantMembership ∧ ∃ t, x.path = "/tenants/" ++ t) ∨
      (x.source = .serviceAccount ∧ x.subject.kind = .service ∧
        (x.path = "/" ∨ ∃ t, x.path = "/tenants/" ++ t)) := by
  simp only [virtualEntries, mem_append] at h
  rcases h with (h | h) | h
  · obtain ⟨r, hr, rfl⟩ := List.mem_map.mp h
    exact .inl ⟨r, hr, rfl⟩
  · obtain ⟨m, -, rfl⟩ := List.mem_map.mp h
    exact .inr (.inl ⟨rfl, _, rfl⟩)
  · obtain ⟨a, -, ha⟩ := List.mem_filterMap.mp h
    refine .inr (.inr ?_)
    unfold serviceAccountEntry at ha
    split at ha
    · obtain rfl := Option.some.inj ha
      exact ⟨rfl, rfl, .inr ⟨_, rfl⟩⟩
    · split_ifs at ha
      obtain ⟨role, -, rfl⟩ := Option.map_eq_some_iff.mp ha
      exact ⟨rfl, rfl, .inl rfl⟩

theorem mem_virtualEntries_of_role {r : PlatformRoleRow} (h : r ∈ db.platformRoles) :
    roleEntry r ∈ virtualEntries db :=
  mem_append_left _ (mem_append_left _ (List.mem_map.mpr ⟨r, h, rfl⟩))

theorem source_of_mem_virtualEntries (h : x ∈ virtualEntries db) : x.source ≠ .acl := by
  rcases mem_virtualEntries h with ⟨r, -, rfl⟩ | ⟨hs, -⟩ | ⟨hs, -⟩
  · exact Source.noConfusion
  · rw [hs]
    exact Source.noConfusion
  · rw [hs]
    exact Source.noConfusion

theorem mem_byPath_load : x ∈ (load db).byPath path ↔
    (x ∈ explicitEntries db ∨ x ∈ virtualEntries db) ∧ x.path = path := by
  rw [mem_byPath, ← mem_append]
  exact Iff.rfl

theorem tenants_ne_root (t : String) : "/tenants/" ++ t ≠ "/" := by
  rw [ne_eq, ← String.toList_inj]
  simp

theorem parse_of_mem_entries (h : e ∈ (load db).entries) {r : String}
    (hr : e.path = "/clusters/" ++ r) : (parsePath e.path).isSome = true := by
  have hroot : e.path ≠ "/" := by
    rw [hr, ne_eq, ← String.toList_inj]
    simp
  have htenant : ∀ t, e.path ≠ "/tenants/" ++ t := by
    intro t
    rw [hr, ne_eq, ← String.toList_inj]
    simp
  rcases mem_append.mp h with h | h
  · obtain ⟨row, -, role, -, rfl⟩ := mem_explicitEntries.mp h
    exact row.parses
  · rcases mem_virtualEntries h with ⟨r, -, rfl⟩ | ⟨-, t, ht⟩ | ⟨-, -, ht | ⟨t, ht⟩⟩
    · exact absurd rfl hroot
    · exact absurd ht (htenant t)
    · exact absurd ht hroot
    · exact absurd ht (htenant t)

end IncusCloud.Acl
