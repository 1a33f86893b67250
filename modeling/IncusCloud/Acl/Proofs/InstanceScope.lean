import IncusCloud.Acl.Proofs.Resolve
import Mathlib.Data.List.Dedup

/-!
# The list filter against the single check

`instanceScope_selects_iff`: for an inventoried instance, when the list filter selects it exactly
if `can` allows it. Instances with an entry of their own, on a group the subject has an entry on,
or owned by the subject are decided one by one (`DecidedAlone`), and there the two always agree
(`selects_of_decidedAlone`). The others are taken to be decided as their project is, which is right
unless the project's own entries are passed on differently from how they decide the project
(`instanceScope_leaks_nonpropagating`).
-/

namespace IncusCloud.Acl

open Lib List

variable {path : String} {subject : Subject}

/-! ### Keys -/

section Keys

variable {c p n : String}

theorem key_projectPath (hc : '/' ∉ c.toList) (hp : '/' ∉ p.toList) :
    InstanceScope.key (projectPath c p) = join '/' [c, p] := by
  have hdrop : (projectPath c p).toList.drop "/clusters/".length =
      c.toList ++ ('/' :: "projects/".toList) ++ p.toList := by
    rw [show "/clusters/".length = 10 from rfl]
    simp [projectPath, formatPath]
  have hproj := replaceFirst_append "projects/".toList "/".toList p.toList hc
  have hinst : ¬ "/instances/".toList <:+: (c.toList ++ "/".toList ++ p.toList) := by
    intro h
    have hcount := h.sublist.count_le '/'
    have hc0 : c.toList.count '/' = 0 := count_eq_zero.mpr hc
    have hp0 : p.toList.count '/' = 0 := count_eq_zero.mpr hp
    have h2 : "/instances/".toList.count '/' = 2 := by decide
    have h1 : "/".toList.count '/' = 1 := by decide
    rw [count_append, count_append] at hcount
    omega
  rw [InstanceScope.key, hdrop]
  change String.ofList (replaceFirst _ _ (replaceFirst ('/' :: "projects/".toList) _ _)) = _
  rw [hproj, replaceFirst_of_not_infix _ hinst]
  simp [join, List.intercalate, List.intersperse]

theorem key_instancePath (hc : '/' ∉ c.toList) (hp : '/' ∉ p.toList) :
    InstanceScope.key (instancePath c p n) = join '/' [c, p, n] := by
  have hdrop : (instancePath c p n).toList.drop "/clusters/".length =
      c.toList ++ ('/' :: "projects/".toList) ++ (p.toList ++ "/instances/".toList ++ n.toList) := by
    rw [show "/clusters/".length = 10 from rfl]
    simp [instancePath, formatPath]
  have hproj := replaceFirst_append "projects/".toList "/".toList
    (p.toList ++ "/instances/".toList ++ n.toList) hc
  have hinst : replaceFirst ('/' :: "instances/".toList) "/".toList
      (c.toList ++ "/".toList ++ (p.toList ++ "/instances/".toList ++ n.toList)) =
        c.toList ++ "/".toList ++ p.toList ++ "/".toList ++ n.toList := by
    by_cases hpi : p.toList = "instances".toList
    · -- A project named `instances`: its own segment is the first occurrence, with the same result.
      have := replaceFirst_append "instances/".toList "/".toList ("instances/".toList ++ n.toList) hc
      simpa [hpi] using this
    · have hskip : ¬ ('/' :: "instances/".toList) <+:
          ('/' :: (p.toList ++ "/instances/".toList ++ n.toList)) := by
        intro h
        have h' := (cons_prefix_cons.mp h).2
        have hw : '/' ∉ "instances".toList := by decide
        have := eq_of_field_prefix (u := []) (v := "instances/".toList ++ n.toList) hw hp
          (by simpa using h')
        exact hpi this.symm
      have h1 := replaceFirst_skip "instances/".toList "/".toList
        (p.toList ++ "/instances/".toList ++ n.toList) hc hskip
      have h2 := replaceFirst_append "instances/".toList "/".toList n.toList hp
      simp only [append_assoc] at h1 h2 ⊢
      rw [show "/".toList ++ (p.toList ++ ("/instances/".toList ++ n.toList)) =
        '/' :: (p.toList ++ ("/instances/".toList ++ n.toList)) from rfl, h1]
      rw [show "/instances/".toList = '/' :: "instances/".toList from rfl, h2]
      simp
  rw [InstanceScope.key, hdrop]
  change String.ofList (replaceFirst ('/' :: "instances/".toList) _
    (replaceFirst ('/' :: "projects/".toList) _ _)) = _
  rw [hproj, hinst]
  simp [join, List.intercalate, List.intersperse]

theorem projectKey_join (hn : '/' ∉ n.toList) :
    InstanceScope.projectKey (join '/' [c, p, n]) = join '/' [c, p] := by
  have h := beforeLast_append (c.toList ++ '/' :: p.toList) hn
  rw [InstanceScope.projectKey]
  simp only [join, List.intercalate, List.intersperse, String.toList_ofList, map_cons,
    map_nil, flatten_cons, flatten_nil, append_nil, cons_append,
    nil_append, append_assoc] at h ⊢
  rw [h]

theorem instancePath_eq_of_key {c' p' n' : String} (hc : '/' ∉ c.toList) (hp : '/' ∉ p.toList)
    (hn : '/' ∉ n.toList) (hc' : '/' ∉ c'.toList) (hp' : '/' ∉ p'.toList) (hn' : '/' ∉ n'.toList)
    (h : InstanceScope.key (instancePath c p n) = InstanceScope.key (instancePath c' p' n')) :
    instancePath c p n = instancePath c' p' n' := by
  rw [key_instancePath hc hp, key_instancePath hc' hp'] at h
  have hl := join_injective '/' (by simp) (by simp) (by simp [hc, hp, hn]) (by simp [hc', hp', hn']) h
  simp only [List.cons.injEq, and_true] at hl
  rw [hl.1, hl.2.1, hl.2.2]

theorem projectPath_eq_of_key {c' p' : String} (hc : '/' ∉ c.toList) (hp : '/' ∉ p.toList)
    (hc' : '/' ∉ c'.toList) (hp' : '/' ∉ p'.toList)
    (h : InstanceScope.key (projectPath c p) = InstanceScope.key (projectPath c' p')) :
    projectPath c p = projectPath c' p' := by
  rw [key_projectPath hc hp, key_projectPath hc' hp'] at h
  have hl := join_injective '/' (by simp) (by simp) (by simp [hc, hp]) (by simp [hc', hp']) h
  simp only [List.cons.injEq, and_true] at hl
  rw [hl.1, hl.2]

end Keys

/-! ### The filter's lists -/

def IsInstancePath (path : String) : Prop :=
  ∃ c p n : Name, path = instancePath c.text p.text n.text

theorem isInstancePath_of_parse {c p n : String} (h : parsePath path = some (.inst c p n)) :
    IsInstancePath path := by
  have hn := names_noSlash_of_parsePath h
  simp only [AclPath.names, mem_cons, not_mem_nil, or_false, forall_eq_or_imp, forall_eq] at hn
  exact ⟨⟨c, hn.1⟩, ⟨p, hn.2.1⟩, ⟨n, hn.2.2⟩, (formatPath_of_parsePath h).1.symm⟩

theorem key_inj {x y : String} (hx : IsInstancePath x) (hy : IsInstancePath y)
    (h : InstanceScope.key x = InstanceScope.key y) : x = y := by
  obtain ⟨c, p, n, rfl⟩ := hx
  obtain ⟨c', p', n', rfl⟩ := hy
  exact instancePath_eq_of_key c.noSlash p.noSlash n.noSlash c'.noSlash p'.noSlash n'.noSlash h

variable {db : Db}

theorem mem_grouped {x : String × List String} (h : x ∈ grouped db) : IsInstancePath x.1 := by
  obtain ⟨i, -, rfl⟩ := List.mem_map.mp (mem_of_mem_filter h)
  exact ⟨i.2.name, i.1.project, i.1.name, rfl⟩

theorem mem_onGroup {g : String} :
    path ∈ onGroup db g ↔ ∃ gs, (path, gs) ∈ grouped db ∧ g ∈ gs := by
  simp only [onGroup, mem_flatMap, List.mem_map, mem_filter, decide_eq_true_eq]
  constructor
  · rintro ⟨x, hx, h, ⟨hh, rfl⟩, rfl⟩
    exact ⟨x.2, hx, hh⟩
  · rintro ⟨gs, hx, hg⟩
    exact ⟨(path, gs), hx, g, ⟨hg, rfl⟩, rfl⟩

theorem mem_ownedPaths_of_owners {w : Subject}
    (h : (path, w) ∈ (load db).owners) : (path, w) ∈ ownedPaths db :=
  OrdMap.mem_of_mem_ofList h

theorem isInstancePath_of_owned {x : String × Subject} (h : x ∈ ownedPaths db)
    (hc : "/clusters/".toList.isPrefixOf x.1.toList = true) : IsInstancePath x.1 := by
  rcases mem_append.mp h with h | h
  · obtain ⟨o, -, ho⟩ := List.mem_filterMap.mp h
    obtain ⟨w, -, rfl⟩ := Option.map_eq_some_iff.mp ho
    exact ⟨o.2.name, o.1.project, o.1.name, rfl⟩
  · obtain ⟨k, -, rfl⟩ := List.mem_map.mp h
    exfalso
    rw [ isPrefixOf_iff_prefix] at hc
    obtain ⟨r, hr⟩ := hc
    simp [formatPath] at hr

theorem isInstancePath_of_mem_singles {x : String}
    (h : x ∈ (load db).singles subject) : IsInstancePath x := by
  rcases mem_append.mp h with h | h
  · obtain ⟨k, -, h⟩ := mem_flatMap.mp h
    obtain ⟨e, -, h⟩ := mem_flatMap.mp h
    split at h
    · rename_i hparse
      rw [mem_singleton.mp h]
      exact isInstancePath_of_parse hparse
    · obtain ⟨gs, hg, -⟩ := mem_onGroup.mp h
      exact mem_grouped hg
    · simp at h
  · obtain ⟨o, ho, rfl⟩ := List.mem_map.mp h
    rw [mem_filter, Bool.and_eq_true] at ho
    exact isInstancePath_of_owned (mem_ownedPaths_of_owners ho.1) ho.2.2

/-! ### Instances decided one by one -/

/-- An instance is decided by itself: one of the subject's keys has an entry on it or on a cluster
group it runs in, or the subject owns it. -/
def DecidedAlone (s : Snapshot) (subject : Subject) (path : String) : Prop :=
  (∃ e ∈ s.entries, e.subject ∈ s.keysOf subject ∧ (e.path = path ∨ path ∈ s.onGroup e.path)) ∨
    s.owners.get path = some subject

theorem exists_groupPath_of_mem_grouped {g : String} {gs : List String}
    (h : (path, gs) ∈ grouped db) (hg : g ∈ gs) :
    ∃ c n : Name, g = groupPath c.text n.text := by
  obtain ⟨i, -, hi⟩ := List.mem_map.mp (mem_of_mem_filter h)
  obtain ⟨-, rfl⟩ := Prod.mk.inj hi
  unfold groupsAt at hg
  split at hg
  · obtain ⟨x, hx, rfl⟩ := List.mem_map.mp hg
    split_ifs at hx
    · rw [mem_singleton.mp hx]
      exact ⟨i.2.name, ⟨"default", by decide⟩, rfl⟩
    · obtain ⟨y, -, rfl⟩ := List.mem_map.mp hx
      exact ⟨i.2.name, y, rfl⟩
  · simp at hg

theorem parsePath_groupPath {c g : Name}
    (h : (parsePath (groupPath c.text g.text)).isSome = true) :
    parsePath (groupPath c.text g.text) = some (.group c.text g.text) := by
  have hn := parsePath_of_noSlash (p := .group c.text g.text)
    (by simp [AclPath.names, c.noSlash, g.noSlash])
  rw [groupPath] at h ⊢
  rw [hn] at h ⊢
  split_ifs at h with hall
  · exact if_pos hall
  · simp at h

theorem mem_singles_of_entry {e : Entry}
    (he : e ∈ (load db).entries) (hk : e.subject ∈ (load db).keysOf subject)
    (h : path ∈ match parsePath e.path with
      | some (.inst _ _ _) => [e.path]
      | some (.group _ _) => (load db).onGroup e.path
      | _ => []) : path ∈ (load db).singles subject := by
  refine mem_append_left _ (mem_flatMap.mpr ⟨e.subject, hk, mem_flatMap.mpr ⟨e, ?_, h⟩⟩)
  exact mem_filter.mpr ⟨he, by simp⟩

theorem decidedAlone_of_mem_singles
    (h : path ∈ (load db).singles subject) : DecidedAlone (load db) subject path := by
  rcases mem_append.mp h with h | h
  · obtain ⟨k, hk, h⟩ := mem_flatMap.mp h
    obtain ⟨e, he, h⟩ := mem_flatMap.mp h
    simp only [Snapshot.bySubject, mem_filter, decide_eq_true_eq] at he
    refine .inl ⟨e, he.1, he.2 ▸ hk, ?_⟩
    -- An entry on an instance, or one on a group it runs in.
    split at h
    · exact .inl (mem_singleton.mp h).symm
    · exact .inr h
    · simp at h
  · obtain ⟨o, ho, hpath⟩ := List.mem_map.mp h
    rw [mem_filter, Bool.and_eq_true, decide_eq_true_eq] at ho
    obtain ⟨hmem, hw, -⟩ := ho
    have hget := OrdMap.get_of_mem (OrdMap.nodup_keys_ofList (ownedPaths db))
      (show (o.1, o.2) ∈ OrdMap.ofList (ownedPaths db) from hmem)
    rw [hpath, hw] at hget
    exact .inr hget

theorem mem_singles_of_decidedAlone
    (hp : IsInstancePath path) (h : DecidedAlone (load db) subject path) :
    path ∈ (load db).singles subject := by
  obtain ⟨c, p, n, rfl⟩ := hp
  have hinst : ∀ x : AclPath, parsePath (instancePath c.text p.text n.text) = some x →
      x = .inst c.text p.text n.text := by
    intro x hx
    rw [instancePath, parsePath_of_noSlash
      (by simp [AclPath.names, c.noSlash, p.noSlash, n.noSlash])] at hx
    split_ifs at hx
    exact (Option.some.inj hx).symm
  rcases h with ⟨e, he, hk, hpath | hgroup⟩ | howner
  · -- An entry's path parses, and a path that reads as an instance's is one.
    have hparse := parse_of_mem_entries he (r := c.text ++ "/projects/" ++ p.text ++
      "/instances/" ++ n.text) (by rw [hpath, ← String.toList_inj]; simp [instancePath, formatPath])
    obtain ⟨x, hx⟩ := Option.isSome_iff_exists.mp hparse
    have hx' := hinst x (hpath ▸ hx)
    refine mem_singles_of_entry he hk ?_
    rw [hx, hx', hpath]
    exact mem_cons_self
  · obtain ⟨gs, hgs, hg⟩ := mem_onGroup.mp hgroup
    obtain ⟨c', g, hpath⟩ := exists_groupPath_of_mem_grouped hgs hg
    have hparse := parse_of_mem_entries he (r := c'.text ++ "/groups/" ++ g.text)
      (by rw [hpath, ← String.toList_inj]; simp [groupPath, formatPath])
    refine mem_singles_of_entry he hk ?_
    rw [hpath] at hparse ⊢
    rw [parsePath_groupPath hparse]
    rwa [hpath] at hgroup
  · refine mem_append_right _ (List.mem_map.mpr ⟨(_, subject), mem_filter.mpr
      ⟨OrdMap.mem_of_get howner, ?_⟩, rfl⟩)
    rw [Bool.and_eq_true]
    refine ⟨by simp, ?_⟩
    rw [ isPrefixOf_iff_prefix]
    simp [instancePath, formatPath]

theorem mem_singles_iff (hp : IsInstancePath path) :
    path ∈ (load db).singles subject ↔ DecidedAlone (load db) subject path :=
  ⟨decidedAlone_of_mem_singles, mem_singles_of_decidedAlone hp⟩

/-! ### What the filter selects -/

section Selects

variable {db : Db} {who : Principal} {q : Privilege} {i : InstanceRow × ClusterRow}

def rowProject (i : InstanceRow × ClusterRow) : String := join '/' [i.2.name.text, i.1.project.text]

def rowKey (i : InstanceRow × ClusterRow) : String :=
  join '/' [i.2.name.text, i.1.project.text, i.1.name.text]

def rowProjectPath (i : InstanceRow × ClusterRow) : String :=
  projectPath i.2.name.text i.1.project.text

theorem exists_names_of_mem_knownProjects {x : String} (h : x ∈ knownProjects db) :
    ∃ c p : Name, x = projectPath c.text p.text := by
  rw [knownProjects, mem_dedup, mem_append] at h
  rcases h with h | h
  · obtain ⟨y, -, rfl⟩ := List.mem_map.mp h
    exact ⟨y.1.2.name, y.1.1.project, rfl⟩
  · obtain ⟨y, -, rfl⟩ := List.mem_map.mp h
    exact ⟨y.2.name, y.1.project, rfl⟩

theorem rowProjectPath_mem (hi : i ∈ located db) : rowProjectPath i ∈ (load db).projects := by
  change rowProjectPath i ∈ knownProjects db
  rw [knownProjects, mem_dedup]
  exact mem_append_right _ (List.mem_map.mpr ⟨i, hi, rfl⟩)

theorem isInstancePath_locatedPath (i : InstanceRow × ClusterRow) :
    IsInstancePath (locatedPath i) := ⟨i.2.name, i.1.project, i.1.name, rfl⟩

theorem key_locatedPath (i : InstanceRow × ClusterRow) :
    InstanceScope.key (locatedPath i) = rowKey i :=
  key_instancePath i.2.name.noSlash i.1.project.noSlash

theorem mem_scope_projects (hi : i ∈ located db) :
    rowProject i ∈ ((load db).instanceScope who q).projects ↔
      q ∈ (load db).privileges (subjectOf who) (rowProjectPath i) := by
  have hkey : rowProject i = InstanceScope.key (rowProjectPath i) :=
    (key_projectPath i.2.name.noSlash i.1.project.noSlash).symm
  simp only [Snapshot.instanceScope, List.mem_map, mem_filter, decide_eq_true_eq]
  constructor
  · rintro ⟨x, ⟨hx, hq⟩, hk⟩
    obtain ⟨c, p, rfl⟩ := exists_names_of_mem_knownProjects hx
    rw [hkey] at hk
    have := projectPath_eq_of_key c.noSlash p.noSlash i.2.name.noSlash i.1.project.noSlash hk
    rwa [this] at hq
  · intro hq
    exact ⟨rowProjectPath i, ⟨rowProjectPath_mem hi, hq⟩, hkey.symm⟩

def covered (db : Db) (who : Principal) (q : Privilege) (path : String) : Prop :=
  InstanceScope.projectKey (InstanceScope.key path) ∈ ((load db).instanceScope who q).projects

theorem covered_locatedPath (hi : i ∈ located db) : covered db who q (locatedPath i) ↔
    q ∈ (load db).privileges (subjectOf who) (rowProjectPath i) := by
  rw [covered, key_locatedPath, rowKey, projectKey_join i.1.name.noSlash]
  exact mem_scope_projects hi

theorem rowKey_mem_map {l : List String} (hl : ∀ x ∈ l, IsInstancePath x) (f : String → Bool) :
    rowKey i ∈ (l.dedup.filter f).map InstanceScope.key ↔
      locatedPath i ∈ l ∧ f (locatedPath i) = true := by
  rw [← key_locatedPath, List.mem_map]
  constructor
  · rintro ⟨x, hx, hk⟩
    rw [mem_filter, mem_dedup] at hx
    obtain rfl := key_inj (hl x hx.1) (isInstancePath_locatedPath i) hk
    exact hx
  · intro h
    exact ⟨locatedPath i, by rwa [mem_filter, mem_dedup], rfl⟩

theorem mem_scope_included :
    rowKey i ∈ ((load db).instanceScope who q).included ↔
      DecidedAlone (load db) (subjectOf who) (locatedPath i) ∧
        q ∈ (load db).privileges (subjectOf who) (locatedPath i) ∧
          ¬ covered db who q (locatedPath i) := by
  rw [← mem_singles_iff (isInstancePath_locatedPath i)]
  refine (rowKey_mem_map (fun x hx => isInstancePath_of_mem_singles hx) _).trans ?_
  rw [Bool.and_eq_true, Bool.not_eq_true', decide_eq_true_eq, decide_eq_false_iff_not]
  exact Iff.rfl

theorem mem_scope_exclude :
    rowKey i ∈ ((load db).instanceScope who q).exclude ↔
      DecidedAlone (load db) (subjectOf who) (locatedPath i) ∧
        q ∉ (load db).privileges (subjectOf who) (locatedPath i) ∧
          covered db who q (locatedPath i) := by
  rw [← mem_singles_iff (isInstancePath_locatedPath i)]
  refine (rowKey_mem_map (fun x hx => isInstancePath_of_mem_singles hx) _).trans ?_
  rw [Bool.and_eq_true, decide_eq_true_eq, decide_eq_true_eq]
  exact Iff.rfl

theorem selects_of_decidedAlone (hi : i ∈ located db)
    (h : DecidedAlone (load db) (subjectOf who) (locatedPath i)) :
    ((load db).instanceScope who q).selects (rowProject i) (rowKey i) ↔
      q ∈ (load db).privileges (subjectOf who) (locatedPath i) := by
  rw [InstanceScope.selects, mem_scope_included, mem_scope_exclude, mem_scope_projects hi,
    ← covered_locatedPath hi]
  simp only [h, true_and]
  by_cases hq : q ∈ (load db).privileges (subjectOf who) (locatedPath i)
  · by_cases hc : covered db who q (locatedPath i) <;> simp [hq, hc]
  · by_cases hc : covered db who q (locatedPath i) <;> simp [hq, hc]

theorem selects_of_not_decidedAlone (hi : i ∈ located db)
    (h : ¬ DecidedAlone (load db) (subjectOf who) (locatedPath i)) :
    ((load db).instanceScope who q).selects (rowProject i) (rowKey i) ↔
      q ∈ (load db).privileges (subjectOf who) (rowProjectPath i) := by
  rw [InstanceScope.selects, mem_scope_included, mem_scope_exclude, mem_scope_projects hi]
  simp only [h, false_and, not_false_eq_true, and_true, false_or]

end Selects

/-! ### What an instance inherits -/

/-- What a project and the levels above it pass on: the entries that propagate decide. -/
def passedOn (s : Snapshot) (subject : Subject) (c p : String) : List Privilege :=
  privilegesOf false (preferOwn (s.keysOf subject) (firstHit (here (s.keysOf subject) s.byPath)
    ((chain s.tenantOf (.project c p)).map (·, false))))

theorem mem_locatedIn {g : String} (h : g ∈ locatedIn db path) : path ∈ onGroup db g := by
  unfold locatedIn at h
  cases hl : ((grouped db).filter fun x => x.1 = path).getLast? with
  | none => simp [hl] at h
  | some x =>
    rw [hl, Option.elim_some] at h
    have hx := mem_filter.mp (mem_of_getLast? hl)
    have hpath : x.1 = path := by simpa using hx.2
    exact mem_onGroup.mpr ⟨x.2, hpath ▸ hx.1, h⟩

theorem mem_privileges_of_not_decidedAlone
    (hs : subject ∉ (load db).disabled) {c p n : String}
    (hp : parsePath path = some (.inst c p n)) (h : ¬ DecidedAlone (load db) subject path)
    (q : Privilege) :
    q ∈ (load db).privileges subject path ↔ q ∈ passedOn (load db) subject c p := by
  set s := load db with hsdef
  have hentry : ∀ e ∈ s.entries, e.subject ∈ s.keysOf subject →
      e.path ≠ path ∧ path ∉ s.onGroup e.path := by
    intro e he hk
    constructor
    · exact fun hpath => h (.inl ⟨e, he, hk, .inl hpath⟩)
    · exact fun hg => h (.inl ⟨e, he, hk, .inr hg⟩)
  have howned : s.owns none subject path = false := by
    rw [Snapshot.owns, Option.none_or]
    exact decide_eq_false fun ho => h (.inr ho)
  -- Neither the instance nor a group it runs in has an entry that counts.
  have hhere : ∀ b, here (s.keysOf subject) s.byPath (path, b) = [] := by
    intro b
    refine eq_nil_iff_forall_not_mem.mpr fun e he => ?_
    obtain ⟨hmem, hk, -⟩ := mem_here.mp he
    obtain ⟨hmem, hpath⟩ := mem_byPath.mp hmem
    exact (hentry e hmem hk).1 hpath
  have hgroup : ∀ g ∈ s.locatedIn path, here (s.keysOf subject) s.byPath (g, false) = [] := by
    intro g hg
    refine eq_nil_iff_forall_not_mem.mpr fun e he => ?_
    obtain ⟨hmem, hk, -⟩ := mem_here.mp he
    obtain ⟨hmem, hpath⟩ := mem_byPath.mp hmem
    exact (hentry e hmem hk).2 (hpath ▸ mem_locatedIn hg)
  have hown : deciding (s.keysOf subject) s.byPath [path] = [] :=
    deciding_eq_nil.mpr (by simp [levels, hhere])
  have hside : ∀ g ∈ s.locatedIn path, deciding (s.keysOf subject) s.byPath [path, g] = [] := by
    intro g hg
    exact deciding_eq_nil.mpr (by simp [levels, hhere, hgroup g hg])
  have hfull : chain s.tenantOf (.inst c p n) = path :: chain s.tenantOf (.project c p) := by
    rw [chain_inst, (formatPath_of_parsePath hp).1]
  rw [mem_privileges_inst hs hp, if_neg (not_not.mpr hown), hfull, deciding_of_head_nil hown,
    howned, passedOn]
  refine or_iff_left ?_
  rintro ⟨g, hg, hq⟩
  rw [hside g hg] at hq
  simp [privilegesOf] at hq

/-- **The list filter against the single check**: an inventoried instance is selected exactly when
`can` allows the privilege on it, if and only if the subject is disabled, the instance is decided by
itself, or the privilege is held on its project exactly when the project passes it on to a path that
can be checked at all. -/
theorem instanceScope_selects_iff (db : Db) (who : Principal) (q : Privilege)
    (i : InstanceRow × ClusterRow) (hi : i ∈ located db) :
    (((load db).instanceScope who q).selects (rowProject i) (rowKey i) ↔
        (load db).can who q (locatedPath i) = true) ↔
      subjectOf who ∈ (load db).disabled ∨
        DecidedAlone (load db) (subjectOf who) (locatedPath i) ∨
        (q ∈ (load db).privileges (subjectOf who) (rowProjectPath i) ↔
          (parsePath (locatedPath i)).isSome = true ∧
            q ∈ passedOn (load db) (subjectOf who) i.2.name.text i.1.project.text) := by
  have hcan : (load db).can who q (locatedPath i) = true ↔
      q ∈ (load db).privileges (subjectOf who) (locatedPath i) := by
    rw [Snapshot.can, decide_eq_true_eq]
  rw [hcan]
  -- Decided by itself, the instance is in `singles`; otherwise its project decides for the filter.
  by_cases halone : DecidedAlone (load db) (subjectOf who) (locatedPath i)
  · simp [selects_of_decidedAlone hi halone, halone]
  rw [selects_of_not_decidedAlone hi halone]
  by_cases hs : subjectOf who ∈ (load db).disabled
  · simp [Snapshot.privileges, decide_of_disabled hs, hs]
  simp only [hs, halone, false_or]
  cases hp : parsePath (locatedPath i) with
  | none => simp [Snapshot.privileges, decide_of_not_parse hp]
  | some x =>
    have hx : x = .inst i.2.name.text i.1.project.text i.1.name.text := by
      rw [locatedPath, instancePath, parsePath_of_noSlash
        (by simp [AclPath.names, i.2.name.noSlash, i.1.project.noSlash, i.1.name.noSlash])] at hp
      split_ifs at hp
      exact (Option.some.inj hp).symm
    subst hx
    rw [mem_privileges_of_not_decidedAlone hs hp halone]
    simp

/-- `userU` has one entry, Operator on project `a` of cluster `c`. -/
def operatorOfProject (propagate : Bool) : Db where
  users := [⟨userU, "u@example.net", false⟩]
  clusters := [clusterC]
  instances := [instanceI]
  aclEntries :=
    [{ id := idE1
       path := "/clusters/c/projects/a"
       kind := .user
       subjectId := userU
       role := "operator"
       propagate
       createdBy := none
       parses := by decide }]
  aclEntries_ids := by simp
  tenantMembers_keys := tenantMembers_keys_nil

/-- An entry that propagates: the filter and the check agree. -/
theorem instanceScope_selects_operator :
    (instanceI, clusterC) ∈ located (operatorOfProject true) ∧
      (((load (operatorOfProject true)).instanceScope ⟨false, userU⟩ .instanceView).selects
          (rowProject (instanceI, clusterC)) (rowKey (instanceI, clusterC)) ↔
        (load (operatorOfProject true)).can ⟨false, userU⟩ .instanceView
          (locatedPath (instanceI, clusterC)) = true) :=
  ⟨by decide, (instanceScope_selects_iff (operatorOfProject true) ⟨false, userU⟩ .instanceView
    (instanceI, clusterC) (by decide)).mpr (.inr (.inr (by decide)))⟩

/-- An entry that stops at the project: the filter still selects the project's instances. -/
theorem instanceScope_leaks_nonpropagating :
    ¬ ∀ (db : Db) (who : Principal) (q : Privilege) (i : InstanceRow × ClusterRow),
      i ∈ located db →
      (((load db).instanceScope who q).selects (rowProject i) (rowKey i) ↔
        (load db).can who q (locatedPath i) = true) := by
  intro h
  have hiff := h (operatorOfProject false) ⟨false, userU⟩ .instanceView (instanceI, clusterC)
    (by decide)
  exact absurd hiff (by decide)

end IncusCloud.Acl
