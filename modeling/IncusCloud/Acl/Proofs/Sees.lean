import IncusCloud.Acl.Proofs.Entries
import IncusCloud.Acl.Proofs.InstanceScope

/-!
# What a subject sees

`Snapshot.sees` tries the paths the subject's entries reach instead of every object.
`sees_where_entries_apply`: what it finds is held, on an object or where an entry stands, and what
is held below a path shows the path, unless it is inherited past a No access entry that is not.
-/

open List

namespace IncusCloud.Acl

open Lib (firstHit firstHit_cons_of_eq_nil firstHit_cons_of_ne_nil firstHit_append firstHit_cases
  firstHit_eq_nil split)
variable {p q : AclPath} {c : String}

def Below (path x : String) : Prop := path = "/" ∨ (path ++ "/").toList <+: x.toList

def KnownObject (db : Db) (x : String) : Prop :=
  x ∈ (load db).projects ∨ (∃ i ∈ located db, x = locatedPath i) ∨
    (IsInstancePath x ∧ ∃ w, (x, w) ∈ (load db).owners) ∨
    ∃ c p, projectPath c p ∈ (load db).projects ∧ x = formatPath (.cluster c)

/-- One of the subject's entries applies at `x`: it stands there, on the tenant whose project `x`
is, or on a cluster group the instance `x` runs in. -/
def Reached (s : Snapshot) (subject : Subject) (x : String) : Prop :=
  ∃ e ∈ s.entries, e.subject ∈ s.keysOf subject ∧
    (x = e.path ∨ (∃ t, Snapshot.tenantOfPath e.path = some t ∧ x ∈ s.projectsOf t) ∨
      x ∈ s.onGroup e.path)

/-- A No access entry of the subject's keys stands on a path above `x` and does not propagate. -/
def FencedAbove (s : Snapshot) (subject : Subject) (x : String) : Prop :=
  ∃ p, parsePath x = some p ∧ ∃ e ∈ s.entries, e.subject ∈ s.keysOf subject ∧
    e.role = .noAccess ∧ e.propagate = false ∧ e.path ∈ (chain s.tenantOf p).tail

/-! ### What `sees` looks at -/

variable {subject : Subject} {s : Snapshot} {path x : String}

theorem mem_candidates : x ∈ s.candidates subject path ↔ Below path x ∧ Reached s subject x := by
  have htenant : ∀ path : String, x ∈ (Snapshot.tenantOfPath path).elim [] s.projectsOf ↔
      ∃ t, Snapshot.tenantOfPath path = some t ∧ x ∈ s.projectsOf t := by
    intro path
    cases Snapshot.tenantOfPath path with
    | none => simp
    | some t => simp
  simp only [Snapshot.candidates, Snapshot.bySubject, mem_flatMap, mem_filter, mem_cons,
    mem_append, htenant, Bool.or_eq_true, decide_eq_true_eq, isPrefixOf_iff_prefix, Below,
    Reached]
  constructor
  · rintro ⟨e, ⟨k, hk, he, rfl⟩, hx, hbelow⟩
    exact ⟨hbelow, e, he, hk, hx⟩
  · rintro ⟨hbelow, e, he, hk, hx⟩
    exact ⟨e, ⟨e.subject, hk, he, rfl⟩, hx, hbelow⟩

theorem sees_iff {who : Principal} {path : String} :
    s.sees who path = true ↔ s.privileges (subjectOf who) path ≠ [] ∨
      ∃ x ∈ s.candidates (subjectOf who) path, s.privileges (subjectOf who) x ≠ [] := by
  simp only [Snapshot.sees, Bool.or_eq_true, Bool.not_eq_true', isEmpty_eq_false_iff, any_eq_true]

/-! ### What gives a privilege at all -/

theorem RoleId.privileges_ne_nil {r : RoleId} (h : r ≠ .noAccess) : r.privileges ≠ [] := by
  cases r with
  | noAccess => exact absurd rfl h
  | _ => decide

/-- Entries give something exactly when there is one and none is No access: every other role has a
privilege that does not ask who owns the object. -/
theorem privilegesOf_ne_nil {owned : Bool} {es : List Entry} :
    privilegesOf owned es ≠ [] ↔ es ≠ [] ∧ ∀ e ∈ es, e.role ≠ .noAccess := by
  constructor
  · intro h
    obtain ⟨q, hq⟩ := exists_mem_of_ne_nil _ h
    obtain ⟨hall, e, he, -⟩ := mem_privilegesOf.mp hq
    exact ⟨ne_nil_of_mem he, hall⟩
  · rintro ⟨hne, hall⟩
    obtain ⟨e, he⟩ := exists_mem_of_ne_nil _ hne
    obtain ⟨q, hq⟩ := exists_mem_of_ne_nil _ (RoleId.privileges_ne_nil (hall e he))
    exact ne_nil_of_mem (mem_privilegesOf.mpr ⟨hall, e, he, .inl hq⟩)

theorem not_disabled_of_privileges {x : String}
    (h : s.privileges subject x ≠ []) : subject ∉ s.disabled := by
  intro hs
  apply h
  rw [Snapshot.privileges, decide_of_disabled hs]

theorem parse_of_privileges {x : String}
    (h : s.privileges subject x ≠ []) : ∃ p, parsePath x = some p := by
  cases hp : parsePath x with
  | none =>
    rw [Snapshot.privileges, decide_of_not_parse hp] at h
    exact absurd rfl h
  | some p => exact ⟨p, rfl⟩

theorem privileges_ne_nil_iff (hs : subject ∉ s.disabled)
    {x : String} (hp : parsePath x = some p) (hinst : ∀ c q i, p ≠ .inst c q i) :
    s.privileges subject x ≠ [] ↔ deciding (s.keysOf subject) s.byPath (chain s.tenantOf p) ≠ [] ∧
      ∀ e ∈ deciding (s.keysOf subject) s.byPath (chain s.tenantOf p), e.role ≠ .noAccess := by
  rw [Snapshot.privileges, decide_eq_resolve hs hp (.inl hinst), resolve_eq]
  exact privilegesOf_ne_nil

/-! ### Paths below others -/

theorem segments_of_below (hp : parsePath path = some p)
    (hq : parsePath x = some q) (h : (path ++ "/").toList <+: x.toList) :
    ∃ rest, rest ≠ [] ∧ segments q = segments p ++ rest := by
  obtain ⟨r, hr⟩ := h
  have hx : x.toList.drop 1 = path.toList.drop 1 ++ '/' :: r := by
    rw [← hr, String.toList_append]
    have hne : path.toList ≠ [] := by
      intro hnil
      have hhead := head?_formatPath p
      rw [(formatPath_of_parsePath hp).1, hnil] at hhead
      cases hhead
    cases hl : path.toList with
    | nil => exact absurd hl hne
    | cons a l => simp
  -- Splitting at the slashes gives back the path's own segments first.
  refine ⟨split '/' (String.ofList r), ?_, ?_⟩
  · simp [split, splitOn_ne_nil]
  · rw [← split_formatPath (names_noSlash_of_parsePath hq), ← split_formatPath (names_noSlash_of_parsePath hp),
      (formatPath_of_parsePath hq).1, (formatPath_of_parsePath hp).1, hx]
    simp only [split, String.toList_ofList, splitOn_append_cons_self, map_append]

theorem below_cases (hp : parsePath path = some p)
    (hq : parsePath x = some q) (h : (path ++ "/").toList <+: x.toList) :
    (∃ c, p = .cluster c ∧ ((∃ g, q = .group c g) ∨ (∃ r, q = .project c r) ∨ ∃ r i, q = .inst c r i)) ∨
      (∃ c r i, p = .project c r ∧ q = .inst c r i) ∨ ∃ t n, p = .tenant t ∧ q = .kubernetes t n := by
  obtain ⟨rest, hne, hseg⟩ := segments_of_below hp hq h
  cases p <;> cases q <;> simp_all [segments]

/-! ### Levels -/

section Levels

variable {s : Snapshot} {subject : Subject} {x z : String}

def Given (s : Snapshot) (subject : Subject) (levels : List String) : Prop :=
  deciding (s.keysOf subject) s.byPath levels ≠ [] ∧
    ∀ e ∈ deciding (s.keysOf subject) s.byPath levels, e.role ≠ .noAccess

/-- Where a level's entries that propagate give something, and no other is No access, the level
does: its own entries are preferred among those that propagate, or none of them does. -/
theorem noAccess_of_level {H : List Entry} {ks : List Subject}
    (hfalse : ∀ e ∈ preferOwn ks (H.filter (·.propagate)), e.role ≠ .noAccess)
    (hfence : ∀ e ∈ H, e.propagate = false → e.role ≠ .noAccess) :
    ∀ e ∈ preferOwn ks H, e.role ≠ .noAccess := by
  intro e he
  obtain ⟨hmem, hpref⟩ := mem_preferOwn.mp he
  cases hprop : e.propagate with
  | false => exact hfence e hmem hprop
  | true =>
    apply hfalse e
    refine mem_preferOwn.mpr ⟨mem_filter.mpr ⟨hmem, hprop⟩, hpref.imp_right fun hno y hy => ?_⟩
    exact hno y (mem_of_mem_filter hy)

/-- Levels without an entry that propagates pass over to the next path, which gives something as
well: what it does not pass on is no No access. -/
theorem given_up {pre post : List String} (hown : deciding (s.keysOf subject) s.byPath [x] = [])
    (hpre : ∀ y ∈ pre, here (s.keysOf subject) s.byPath (y, false) = [])
    (hz : ∀ e ∈ s.entries, e.subject ∈ s.keysOf subject → e.path = z → e.propagate = false →
      e.role ≠ .noAccess) (hx : Given s subject (x :: (pre ++ z :: post))) :
    Given s subject (z :: post) := by
  have hskip : firstHit (here (s.keysOf subject) s.byPath) (pre.map (·, false)) = [] := by
    refine firstHit_eq_nil.mpr fun l hl => ?_
    obtain ⟨y, hy, rfl⟩ := List.mem_map.mp hl
    exact hpre y hy
  have hfence : ∀ e ∈ here (s.keysOf subject) s.byPath (z, true), e.propagate = false →
      e.role ≠ .noAccess := by
    intro e he
    obtain ⟨hmem, hk, -⟩ := mem_here.mp he
    obtain ⟨hmem, hpath⟩ := mem_byPath.mp hmem
    exact hz e hmem hk hpath
  unfold Given at hx ⊢
  rw [deciding_of_head_nil hown, map_append, firstHit_append, if_pos hskip, map_cons] at hx
  unfold deciding levels
  -- For `z` itself its entries count whether they propagate or not; for what is below, those that do.
  by_cases hnil : here (s.keysOf subject) s.byPath (z, true) = []
  · have hnil' : here (s.keysOf subject) s.byPath (z, false) = [] := by
      rw [here_false, hnil, filter_nil]
    rw [firstHit_cons_of_eq_nil _ hnil'] at hx
    rw [firstHit_cons_of_eq_nil _ hnil]
    exact hx
  · rw [firstHit_cons_of_ne_nil _ hnil]
    refine ⟨fun h => hnil (preferOwn_eq_nil.mp h), ?_⟩
    by_cases hpass : here (s.keysOf subject) s.byPath (z, false) = []
    · -- Nothing here is passed on, so nothing here is No access.
      intro e he
      have hmem := preferOwn_subset he
      have hprop : e.propagate = false := by
        rw [here_false, filter_eq_nil_iff] at hpass
        exact Bool.eq_false_iff.mpr (hpass e hmem)
      exact hfence e hmem hprop
    · rw [firstHit_cons_of_ne_nil _ hpass, here_false] at hx
      exact noAccess_of_level hx.2 hfence

end Levels

/-! ### What is held below a path shows it -/

section Shows

variable {s : Snapshot} {who : Principal} {path x : String}

theorem sees_of_reached (hbelow : Below path x) (hx : s.privileges (subjectOf who) x ≠ [])
    (h : Reached s (subjectOf who) x) : s.sees who path = true :=
  sees_iff.mpr (.inr ⟨x, mem_candidates.mpr ⟨hbelow, h⟩, hx⟩)

theorem reached_of_own (hown : deciding (s.keysOf (subjectOf who)) s.byPath [x] ≠ []) :
    Reached s (subjectOf who) x := by
  obtain ⟨e, he⟩ := exists_mem_of_ne_nil _ hown
  have hpath := mem_singleton.mp (path_mem_of_mem_deciding he)
  obtain ⟨l, hl, -, he⟩ := Lib.exists_of_mem_firstHit (preferOwn_subset he)
  obtain ⟨hmem, hk, -⟩ := mem_here.mp he
  exact ⟨e, (mem_byPath.mp hmem).1, hk, .inl hpath.symm⟩

theorem privileges_up {z : String} (hs : subjectOf who ∉ s.disabled)
    (hp : parsePath x = some p) (hx : Given s (subjectOf who) (chain s.tenantOf p))
    (hq : parsePath z = some q) (hinst : ∀ c r i, q ≠ .inst c r i) {pre post : List String}
    (hchain : chain s.tenantOf p = x :: (pre ++ z :: post)) (hchain' : chain s.tenantOf q = z :: post)
    (hown : deciding (s.keysOf (subjectOf who)) s.byPath [x] = [])
    (hpre : ∀ y ∈ pre, here (s.keysOf (subjectOf who)) s.byPath (y, false) = [])
    (hfence : ¬ FencedAbove s (subjectOf who) x) :
    s.privileges (subjectOf who) z ≠ [] ∧ ¬ FencedAbove s (subjectOf who) z := by
  have htail : ∀ y ∈ z :: post, y ∈ (chain s.tenantOf p).tail := by
    intro y hy
    rw [hchain, tail_cons]
    exact mem_append_right _ hy
  constructor
  · rw [privileges_ne_nil_iff hs hq hinst, hchain']
    rw [hchain] at hx
    refine given_up hown hpre (fun e he hk hpath hprop hrole => ?_) hx
    exact hfence ⟨p, hp, e, he, hk, hrole, hprop, hpath ▸ htail z mem_cons_self⟩
  · rintro ⟨q', hq', e, he, hk, hrole, hprop, hmem⟩
    obtain rfl := Option.some.inj (hq.symm.trans hq')
    rw [hchain', tail_cons] at hmem
    exact hfence ⟨p, hp, e, he, hk, hrole, hprop, htail _ (mem_cons_of_mem _ hmem)⟩

theorem sees_root_of_top (hp : parsePath x = some p)
    (hinst : ∀ c r i, p ≠ .inst c r i) (hchain : chain s.tenantOf p = [x, "/"])
    (hx : s.privileges (subjectOf who) x ≠ []) (hfence : ¬ FencedAbove s (subjectOf who) x) :
    s.sees who "/" = true := by
  by_cases hown : deciding (s.keysOf (subjectOf who)) s.byPath [x] = []
  · have hs := not_disabled_of_privileges hx
    have hroot : parsePath "/" = some .root := by decide
    have hchain' : chain s.tenantOf p = x :: ([] ++ "/" :: []) := hchain
    obtain ⟨hup, -⟩ := privileges_up hs hp ((privileges_ne_nil_iff hs hp hinst).mp hx) hroot nofun
      hchain' rfl hown nofun hfence
    exact sees_iff.mpr (.inl hup)
  · exact sees_of_reached (.inl rfl) hx (reached_of_own hown)

theorem sees_of_child {z : String} (hbelow : Below path x)
    (hpath : path = z ∨ path = "/") (hp : parsePath x = some p) (hinst : ∀ c r i, p ≠ .inst c r i)
    (hq : parsePath z = some q) (hinst' : ∀ c r i, q ≠ .inst c r i)
    (hchain : chain s.tenantOf p = x :: ([] ++ [z, "/"])) (hchain' : chain s.tenantOf q = [z, "/"])
    (hx : s.privileges (subjectOf who) x ≠ []) (hfence : ¬ FencedAbove s (subjectOf who) x) :
    s.sees who path = true := by
  by_cases hown : deciding (s.keysOf (subjectOf who)) s.byPath [x] = []
  · have hs := not_disabled_of_privileges hx
    obtain ⟨hup, hfence⟩ := privileges_up hs hp ((privileges_ne_nil_iff hs hp hinst).mp hx) hq hinst'
      hchain hchain' hown nofun hfence
    rcases hpath with rfl | rfl
    · exact sees_iff.mpr (.inl hup)
    · exact sees_root_of_top hq hinst' hchain' hup hfence
  · exact sees_of_reached hbelow hx (reached_of_own hown)

end Shows

/-! ### Projects and instances -/

section Load

variable {db : Db} {who : Principal} {path x : String}

theorem tenantOfPath_eq {t : String} (hne : t ≠ "") (hslash : '/' ∉ t.toList) :
    Snapshot.tenantOfPath ("/tenants/" ++ t) = some t := by
  have hdrop : ("/tenants/" ++ t).toList.drop "/tenants/".length = t.toList := by
    rw [String.toList_append]
    rfl
  have hnil : t.toList ≠ [] := fun h => hne (String.toList_eq_nil_iff.mp h)
  unfold Snapshot.tenantOfPath
  rw [hdrop, if_pos, String.ofList_toList]
  rw [Bool.and_eq_true, Bool.and_eq_true, isPrefixOf_iff_prefix, String.toList_append]
  refine ⟨⟨prefix_append _ _, ?_⟩, decide_eq_true hslash⟩
  rw [Bool.not_eq_true', isEmpty_eq_false_iff]
  exact hnil

theorem mem_projectsOf {p t : String} (h : tenantOf db c p = some t) :
    '/' ∉ t.toList ∧ projectPath c p ∈ projectsOf db t := by
  obtain ⟨place, hplace, rfl⟩ := Option.map_eq_some_iff.mp h
  have hmem := mem_filter.mp (mem_of_getLast? hplace)
  rw [Bool.and_eq_true, decide_eq_true_eq, decide_eq_true_eq] at hmem
  obtain ⟨hmem, rfl, rfl⟩ := hmem
  exact ⟨place.2.slug.noSlash, List.mem_map.mpr
    ⟨place, mem_filter.mpr ⟨hmem, decide_eq_true rfl⟩, rfl⟩⟩

theorem sees_of_tenant {p : String} (hbelow : Below path (projectPath c p))
    (hx : (load db).privileges (subjectOf who) (projectPath c p) ≠ [])
    {y : String} (hy : y ∈ tenantLevel (tenantOf db c p))
    (hhere : here ((load db).keysOf (subjectOf who)) (load db).byPath (y, false) ≠ []) :
    (load db).sees who path = true := by
  cases ht : tenantOf db c p with
  | none =>
    rw [ht] at hy
    cases hy
  | some t =>
    rw [ht] at hy
    unfold tenantLevel at hy
    dsimp only at hy
    split_ifs at hy with hne
    · cases hy
    · obtain rfl := mem_singleton.mp hy
      obtain ⟨hslash, hmem⟩ := mem_projectsOf ht
      obtain ⟨e, he⟩ := exists_mem_of_ne_nil _ hhere
      obtain ⟨hentry, hk, -⟩ := mem_here.mp he
      obtain ⟨hentry, hpath⟩ := mem_byPath.mp hentry
      refine sees_of_reached hbelow hx ⟨e, hentry, hk, .inr (.inl ⟨t, ?_, hmem⟩)⟩
      rw [hpath]
      exact tenantOfPath_eq hne hslash

theorem parsePath_cluster_of_names (h : isName c = true) :
    parsePath (formatPath (.cluster c)) = some (.cluster c) :=
  parsePath_formatPath (by simp [AclPath.names, h])

theorem sees_of_project {p : String} (hp : parsePath (projectPath c p) = some (.project c p))
    (hbelow : Below path (projectPath c p)) (hpath : path = formatPath (.cluster c) ∨ path = "/")
    (hx : (load db).privileges (subjectOf who) (projectPath c p) ≠ [])
    (hfence : ¬ FencedAbove (load db) (subjectOf who) (projectPath c p)) :
    (load db).sees who path = true := by
  by_cases hown : deciding ((load db).keysOf (subjectOf who)) (load db).byPath [projectPath c p] = []
  · -- Neither the project's own entries nor the tenant's decide, or one of them applies here.
    by_cases htenant : ∀ y ∈ tenantLevel (tenantOf db c p),
        here ((load db).keysOf (subjectOf who)) (load db).byPath (y, false) = []
    · have hs := not_disabled_of_privileges hx
      have hnames := (formatPath_of_parsePath hp).2
      have hc : isName c = true := by
        simp only [AclPath.names, all_cons, all_nil, Bool.and_true, Bool.and_eq_true] at hnames
        exact hnames.1
      have hq := parsePath_cluster_of_names hc
      obtain ⟨hup, hfence⟩ := privileges_up hs hp ((privileges_ne_nil_iff hs hp (by simp)).mp hx) hq (by simp)
        rfl rfl hown htenant hfence
      rcases hpath with rfl | rfl
      · exact sees_iff.mpr (.inl hup)
      · exact sees_root_of_top hq (by simp) rfl hup hfence
    · push Not at htenant
      obtain ⟨y, hy, hhere⟩ := htenant
      exact sees_of_tenant hbelow hx hy hhere
  · exact sees_of_reached hbelow hx (reached_of_own hown)

theorem reached_or_given_inst {p i : String} (hp : parsePath x = some (.inst c p i))
    (hx : (load db).privileges (subjectOf who) x ≠ []) :
    Reached (load db) (subjectOf who) x ∨
      deciding ((load db).keysOf (subjectOf who)) (load db).byPath [x] = [] ∧
        Given (load db) (subjectOf who) (chain (load db).tenantOf (.inst c p i)) := by
  by_cases hown : deciding ((load db).keysOf (subjectOf who)) (load db).byPath [x] = []
  · obtain ⟨q, hq⟩ := exists_mem_of_ne_nil _ hx
    rw [mem_privileges_inst (not_disabled_of_privileges hx) hp, if_neg (not_not.mpr hown)] at hq
    rcases hq with hq | ⟨g, hg, hq⟩
    · exact .inr ⟨hown, privilegesOf_ne_nil.mp (ne_nil_of_mem hq)⟩
    · -- A group's side: its entry is on the group, which reaches the instance.
      left
      obtain ⟨-, e, he, -⟩ := mem_privilegesOf.mp hq
      rw [deciding_of_head_nil hown] at he
      obtain ⟨l, hl, -, he⟩ := Lib.exists_of_mem_firstHit (preferOwn_subset he)
      obtain rfl := mem_singleton.mp hl
      obtain ⟨hmem, hk, -⟩ := mem_here.mp he
      obtain ⟨hmem, hpath⟩ := mem_byPath.mp hmem
      refine ⟨e, hmem, hk, .inr (.inr ?_)⟩
      rw [hpath]
      exact mem_locatedIn hg
  · exact .inl (reached_of_own hown)

theorem sees_of_inst {p i : String} (hp : parsePath x = some (.inst c p i)) (hbelow : Below path x)
    (hpath : path = projectPath c p ∨ path = formatPath (.cluster c) ∨ path = "/")
    (hx : (load db).privileges (subjectOf who) x ≠ [])
    (hfence : ¬ FencedAbove (load db) (subjectOf who) x) : (load db).sees who path = true := by
  rcases reached_or_given_inst hp hx with hreached | ⟨hown, hgiven⟩
  · exact sees_of_reached hbelow hx hreached
  · have hnames := (formatPath_of_parsePath hp).2
    have hq : parsePath (projectPath c p) = some (.project c p) := by
      apply parsePath_formatPath
      simp only [AclPath.names, all_cons, all_nil, Bool.and_true, Bool.and_eq_true] at hnames ⊢
      exact ⟨hnames.1, hnames.2.1⟩
    have hchain : chain (load db).tenantOf (.inst c p i) = x :: ([] ++ projectPath c p ::
        (tenantLevel ((load db).tenantOf c p) ++ [formatPath (.cluster c), "/"])) := by
      rw [chain_inst, (formatPath_of_parsePath hp).1]
      rfl
    obtain ⟨hup, hfence⟩ := privileges_up (not_disabled_of_privileges hx) hp hgiven hq (by simp) hchain rfl
      hown (by simp) hfence
    rcases hpath with rfl | rfl | rfl
    · exact sees_iff.mpr (.inl hup)
    · refine sees_of_project hq (.inr ?_) (.inl rfl) hup hfence
      simp [projectPath, formatPath]
    · exact sees_of_project hq (.inl rfl) (.inr rfl) hup hfence

theorem sees_of_leaf (hkind : (∃ c g, q = .group c g ∧ p = .cluster c) ∨
      ∃ t n, q = .kubernetes t n ∧ p = .tenant t) (hq : parsePath (formatPath q) = some q)
    (hbelow : Below path (formatPath q)) (hpath : path = formatPath p ∨ path = "/")
    (hx : (load db).privileges (subjectOf who) (formatPath q) ≠ [])
    (hfence : ¬ FencedAbove (load db) (subjectOf who) (formatPath q)) :
    (load db).sees who path = true := by
  have hnames := (formatPath_of_parsePath hq).2
  rcases hkind with ⟨c, g, rfl, rfl⟩ | ⟨t, n, rfl, rfl⟩
  · have hp : parsePath (formatPath (.cluster c)) = some (.cluster c) :=
      parsePath_formatPath (by simp_all [AclPath.names])
    exact sees_of_child hbelow hpath hq (by simp) hp (by simp) rfl rfl hx hfence
  · have hp : parsePath (formatPath (.tenant t)) = some (.tenant t) :=
      parsePath_formatPath (by simp_all [AclPath.names])
    exact sees_of_child hbelow hpath hq (by simp) hp (by simp) rfl rfl hx hfence

theorem sees_root_of_held (hx : (load db).privileges (subjectOf who) x ≠ [])
    (hfence : ¬ FencedAbove (load db) (subjectOf who) x) : (load db).sees who "/" = true := by
  obtain ⟨q, hq⟩ := parse_of_privileges hx
  obtain ⟨rfl, -⟩ := formatPath_of_parsePath hq
  cases q with
  | root => exact sees_iff.mpr (.inl hx)
  | platform => exact sees_root_of_top hq nofun rfl hx hfence
  | cluster c => exact sees_root_of_top hq nofun rfl hx hfence
  | tenant t => exact sees_root_of_top hq nofun rfl hx hfence
  | group c g => exact sees_of_leaf (.inl ⟨c, g, rfl, rfl⟩) hq (.inl rfl) (.inr rfl) hx hfence
  | kubernetes t n => exact sees_of_leaf (.inr ⟨t, n, rfl, rfl⟩) hq (.inl rfl) (.inr rfl) hx hfence
  | project c r => exact sees_of_project hq (.inl rfl) (.inr rfl) hx hfence
  | inst c r i => exact sees_of_inst hq (.inl rfl) (.inr (.inr rfl)) hx hfence

theorem sees_of_below (hp : (parsePath path).isSome = true) (hbelow : Below path x)
    (hx : (load db).privileges (subjectOf who) x ≠ [])
    (hfence : ¬ FencedAbove (load db) (subjectOf who) x) : (load db).sees who path = true := by
  obtain ⟨p, hp⟩ := Option.isSome_iff_exists.mp hp
  obtain ⟨q, hq⟩ := parse_of_privileges hx
  rcases hbelow with rfl | hbelow
  · exact sees_root_of_held hx hfence
  · have hcases := below_cases hp hq hbelow
    obtain ⟨rfl, -⟩ := formatPath_of_parsePath hq
    obtain ⟨rfl, -⟩ := formatPath_of_parsePath hp
    rcases hcases with ⟨c, rfl, ⟨g, rfl⟩ | ⟨r, rfl⟩ | ⟨r, i, rfl⟩⟩ | ⟨c, r, i, rfl, rfl⟩ | ⟨t, n, rfl, rfl⟩
    · exact sees_of_leaf (.inl ⟨c, g, rfl, rfl⟩) hq (.inr hbelow) (.inl rfl) hx hfence
    · exact sees_of_project hq (.inr hbelow) (.inl rfl) hx hfence
    · exact sees_of_inst hq (.inr hbelow) (.inr (.inl rfl)) hx hfence
    · exact sees_of_inst hq (.inr hbelow) (.inl rfl) hx hfence
    · exact sees_of_leaf (.inr ⟨t, n, rfl, rfl⟩) hq (.inr hbelow) (.inl rfl) hx hfence

theorem known_of_reached (h : Reached (load db) (subjectOf who) x) :
    KnownObject db x ∨ ∃ e ∈ (load db).entries, e.subject ∈ (load db).keysOf (subjectOf who) ∧
      e.path = x := by
  obtain ⟨e, he, hk, rfl | ⟨t, -, hx⟩ | hx⟩ := h
  · exact .inr ⟨e, he, hk, rfl⟩
  · left
    left
    obtain ⟨place, hplace, rfl⟩ := List.mem_map.mp hx
    show _ ∈ knownProjects db
    rw [knownProjects, mem_dedup]
    exact mem_append_left _ (List.mem_map.mpr ⟨place, mem_of_mem_filter hplace, rfl⟩)
  · left
    right
    left
    obtain ⟨gs, hgs, -⟩ := mem_onGroup.mp hx
    obtain ⟨i, hi, hpair⟩ := List.mem_map.mp (mem_of_mem_filter hgs)
    exact ⟨i, hi, (Prod.mk.inj hpair).1.symm⟩

end Load

/-- **Where entries apply**: a subject sees a path only if it holds something there, or below it on
an object IncusCloud knows of or where one of its entries stands; and it sees a path if it holds
something there, or anywhere below it where one of its entries applies or where no No access entry
that does not propagate stands above. -/
theorem sees_where_entries_apply (db : Db) (who : Principal) (path : String) :
    ((load db).sees who path = true →
      (load db).privileges (subjectOf who) path ≠ [] ∨
        ∃ x, Below path x ∧ (load db).privileges (subjectOf who) x ≠ [] ∧
          (KnownObject db x ∨ ∃ e ∈ (load db).entries,
            e.subject ∈ (load db).keysOf (subjectOf who) ∧ e.path = x)) ∧
    ((parsePath path).isSome = true →
      (load db).privileges (subjectOf who) path ≠ [] ∨
        (∃ x, Below path x ∧ (load db).privileges (subjectOf who) x ≠ [] ∧
          (Reached (load db) (subjectOf who) x ∨ ¬ FencedAbove (load db) (subjectOf who) x)) →
      (load db).sees who path = true) := by
  constructor
  · intro h
    rcases sees_iff.mp h with h | ⟨x, hx, hpriv⟩
    · exact .inl h
    · obtain ⟨hbelow, hreached⟩ := mem_candidates.mp hx
      exact .inr ⟨x, hbelow, hpriv, known_of_reached hreached⟩
  · rintro hpath (h | ⟨x, hbelow, hx, hreached | hfence⟩)
    · exact sees_iff.mpr (.inl h)
    · exact sees_of_reached hbelow hx hreached
    · exact sees_of_below hpath hbelow hx hfence

/-- An Operator of project `a` sees its cluster by an instance it inherits its rights on. -/
theorem sees_cluster_of_instance :
    (load (operatorOfProject true)).privileges ⟨.user, userU.text⟩
        "/clusters/c/projects/a/instances/i" ≠ [] ∧
      (load (operatorOfProject true)).sees ⟨false, userU⟩ "/clusters/c" = true := by
  have hheld : (load (operatorOfProject true)).privileges ⟨.user, userU.text⟩
      "/clusters/c/projects/a/instances/i" ≠ [] := by decide
  refine ⟨hheld, (sees_where_entries_apply (operatorOfProject true) ⟨false, userU⟩ "/clusters/c").2
    (by decide) (.inr ⟨"/clusters/c/projects/a/instances/i", .inr (by decide), hheld, .inr ?_⟩)⟩
  rintro ⟨-, -, e, he, -, hrole, -⟩
  have hroles : ∀ e ∈ (load (operatorOfProject true)).entries, e.role ≠ .noAccess := by decide
  exact hroles e he hrole

/-- `userU` is Operator of group `g` of cluster `c`, whose members run nothing yet. -/
def operatorOfGroup : Db where
  users := [⟨userU, "u@example.net", false⟩]
  clusters := [clusterC]
  clusterMembers := [⟨clusterC.id, "n1", [⟨"g", by decide⟩]⟩]
  aclEntries :=
    [{ id := idE1
       path := "/clusters/c/groups/g"
       kind := .user
       subjectId := userU
       role := "operator"
       propagate := true
       createdBy := none
       parses := by decide }]
  aclEntries_ids := by simp
  tenantMembers_keys := tenantMembers_keys_nil

/-- A group's entry shows its cluster, where IncusCloud knows of no object at all. -/
theorem sees_beyond_known_objects :
    ¬ ∀ (db : Db) (who : Principal) (path : String), (parsePath path).isSome = true →
      ((load db).sees who path = true ↔ (load db).privileges (subjectOf who) path ≠ [] ∨
        ∃ x, KnownObject db x ∧ Below path x ∧ (load db).privileges (subjectOf who) x ≠ []) := by
  intro h
  have hsees : (load operatorOfGroup).sees ⟨false, userU⟩ "/clusters/c" = true := by decide
  have hprojects : (load operatorOfGroup).projects = [] := by decide
  have howners : (load operatorOfGroup).owners = [] := by decide
  have hlocated : located operatorOfGroup = [] := by decide
  have hunknown : ∀ x, ¬ KnownObject operatorOfGroup x := by
    intro x hx
    unfold KnownObject at hx
    rw [hprojects, howners, hlocated] at hx
    simp at hx
  rcases (h operatorOfGroup ⟨false, userU⟩ "/clusters/c" (by decide)).mp hsees with hpath | ⟨x, hx, -⟩
  · exact hpath (by decide)
  · exact hunknown x hx

end IncusCloud.Acl
