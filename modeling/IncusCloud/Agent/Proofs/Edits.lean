import IncusCloud.Agent.ClusterPatch

/-!
# Edits of a cluster at the same time

However edits of one Cluster interleave, its version goes up by one minor version at most at a time,
and an edit that scales the workers scales the group it read, as long as no number of a version is
so large that it is rounded when it is read.

The `test` ops carry it: the version that is replaced is the one the new version was compared with
(`upgradeError_eq_none`), and the group that is scaled has the name that was read.
-/

namespace IncusCloud.Agent

open Lib List
open Option (all_some bind_eq_some_iff bind_some map_eq_some_iff some.inj)
open Number (ofInt_of_lt)
open Except (ok.inj)

def writtenNumbers (version : List Char) : Option (ℕ × ℕ × ℕ) :=
  (versionGroups version).map fun g => (decimal g.1, decimal g.2.1, decimal g.2.2)

/-- From `vX.Y.Z`, blanks around it aside, to a greater `vX.Y'.Z'` with `Y' ≤ Y + 1`. -/
def OneMinorUp (old new : String) : Prop :=
  ∃ x y z y' z', writtenNumbers (trim old.toList) = some (x, y, z) ∧
    writtenNumbers new.toList = some (x, y', z') ∧ y' ≤ y + 1 ∧ (y < y' ∨ (y = y' ∧ z < z'))

def readsExactly (version : String) : Bool :=
  (writtenNumbers (trim version.toList)).all fun n =>
    n.1 < 2 ^ 53 && n.2.1 < 2 ^ 53 && n.2.2 < 2 ^ 53

/-- The replicas of the first worker group, which has the name that was read, are set to `n`; no
other group changes, nor anything else of this one. -/
def ScalesRead (read : ClusterObject) (n : ℕ) (before after : ClusterObject) : Prop :=
  ∃ g g' gs name, machineDeployments before = some (g :: gs) ∧
    machineDeployments after = some (g' :: gs) ∧ firstGroup read = some name ∧
    groupName g = some name ∧ Json.child "replicas" g' = some (.num n) ∧
    ∀ u, u ≠ "replicas" → Json.child u g' = Json.child u g

/-! ### Versions -/

theorem isSpace_of_isDigit {ch : Char} (h : ch.isDigit) : isSpace ch = false := by
  have hrange : 48 ≤ ch.toNat ∧ ch.toNat ≤ 57 := by
    simp only [Char.isDigit, Bool.and_eq_true, decide_eq_true_eq] at h
    exact ⟨UInt32.le_iff_toNat_le.mp h.1, UInt32.le_iff_toNat_le.mp h.2⟩
  simp only [isSpace, contains_cons, contains_nil, Bool.or_false, Bool.or_eq_false_iff,
    Bool.and_eq_false_iff, decide_eq_false_iff_not, beq_eq_false_iff_ne]
  omega

theorem versionGroups_eq_some {s a b c : List Char} (h : versionGroups s = some (a, b, c)) :
    s = 'v' :: (a ++ '.' :: (b ++ '.' :: c)) ∧ isDigits c := by
  unfold versionGroups at h
  split at h
  · rename_i rest
    split at h
    · rename_i x y z hsplit
      split_ifs at h with hdigits
      obtain ⟨rfl, rfl, rfl⟩ : x = a ∧ y = b ∧ z = c := by simpa using h
      simp only [Bool.and_eq_true] at hdigits
      refine ⟨?_, hdigits.2⟩
      have hjoin : ['.'].intercalate (rest.splitOn '.') = rest := intercalate_splitOn '.'
      rw [hsplit] at hjoin
      rw [← hjoin]
      simp [List.intercalate]
    · cases h
  · cases h

theorem trim_of_versionGroups {s : List Char} (h : (versionGroups s).isSome) : trim s = s := by
  obtain ⟨⟨a, b, c⟩, hgroups⟩ := Option.isSome_iff_exists.mp h
  obtain ⟨rfl, hc⟩ := versionGroups_eq_some hgroups
  have hstart : ('v' :: (a ++ '.' :: (b ++ '.' :: c))).dropWhile isSpace =
      'v' :: (a ++ '.' :: (b ++ '.' :: c)) :=
    dropWhile_cons_of_neg (by decide)
  -- Its last character is the last of the digits in `c`.
  simp only [isDigits, Bool.and_eq_true, decide_eq_true_eq, all_eq_true] at hc
  obtain ⟨d, l, hrev⟩ := exists_cons_of_ne_nil (reverse_ne_nil_iff.mpr hc.1)
  have hd : isSpace d = false := by
    refine isSpace_of_isDigit (hc.2 d ?_)
    rw [← mem_reverse, hrev]
    exact mem_cons_self
  have hend : ('v' :: (a ++ '.' :: (b ++ '.' :: c))).reverse.dropWhile isSpace =
      ('v' :: (a ++ '.' :: (b ++ '.' :: c))).reverse := by
    simp only [reverse_cons, reverse_append, hrev, append_assoc, cons_append]
    exact dropWhile_cons_of_neg (by simp [hd])
  rw [trim, hstart, hend, reverse_reverse]

theorem parseK8sVersion_eq_some {version : String} {v : K8sVersion}
    (h : parseK8sVersion version = some v) (hexact : readsExactly version) :
    ∃ x y z : ℕ, writtenNumbers (trim version.toList) = some (x, y, z) ∧
      v = ⟨.int x, .int y, .int z⟩ ∧ x < 2 ^ 53 ∧ y < 2 ^ 53 ∧ z < 2 ^ 53 := by
  obtain ⟨⟨a, b, c⟩, hgroups, rfl⟩ := map_eq_some_iff.mp h
  have hwritten : writtenNumbers (trim version.toList) = some (decimal a, decimal b, decimal c) := by
    rw [writtenNumbers, hgroups]
    rfl
  simp only [readsExactly, hwritten, all_some, Bool.and_eq_true, decide_eq_true_eq] at hexact
  obtain ⟨⟨hx, hy⟩, hz⟩ := hexact
  refine ⟨_, _, _, hwritten, ?_, hx, hy, hz⟩
  unfold Number.ofDigits
  rw [ofInt_of_lt (by simpa using hx), ofInt_of_lt (by simpa using hy),
    ofInt_of_lt (by simpa using hz)]

theorem upgradeError_eq_none {current target : String} (hcurrent : readsExactly current)
    (htarget : readsExactly target) (hpattern : (versionGroups target.toList).isSome)
    (h : upgradeError current target = none) : OneMinorUp current target := by
  unfold upgradeError at h
  split at h
  · cases h
  · cases h
  · rename_i new old hnew hold
    obtain ⟨x', y', z', hwritten', rfl, hx', hy', hz'⟩ := parseK8sVersion_eq_some hnew htarget
    obtain ⟨x, y, z, hwritten, rfl, hx, hy, hz⟩ := parseK8sVersion_eq_some hold hcurrent
    rw [trim_of_versionGroups hpattern] at hwritten'
    -- Differences of exact numbers are exact.
    have hmajor : Number.ofInt ((x' : ℤ) - x) = .int (x' - x) := ofInt_of_lt (by omega)
    have hminor : Number.ofInt ((y' : ℤ) - y) = .int (y' - y) := ofInt_of_lt (by omega)
    have hpatch : Number.ofInt ((z' : ℤ) - z) = .int (z' - z) := ofInt_of_lt (by omega)
    simp only [compareK8sVersions, Number.sub, hmajor, hminor, hpatch] at h
    split_ifs at h with hsame hdown hdiffers hskip
    have hx : (x' : ℤ) = x := by
      simpa [Number.differs] using hdiffers
    have hone : y' ≤ y + 1 := by
      simp only [Number.gt, decide_eq_true_eq] at hskip
      omega
    refine ⟨x, y, z, y', z', hwritten, Int.ofNat.inj hx ▸ hwritten', hone, ?_⟩
    rw [hx, Int.sub_self] at hsame hdown
    by_cases hy : (y' : ℤ) - y = 0
    · rw [hy] at hsame hdown
      simp only [Number.or, Number.isInt, Number.lt, Number.int.injEq, decide_eq_true_eq] at hsame hdown
      omega
    · rw [Number.or_of_ne_zero hy] at hdown
      simp only [Number.or, Number.lt, decide_eq_true_eq] at hdown
      omega

/-! ### What a patch does to the Cluster -/

theorem toList_eq (s : String) {l : List Char} (h : s = String.ofList l) : s.toList = l := h ▸ String.toList_ofList

theorem tokens_paths :
    (Json.tokens versionPath = ["spec", "topology"] ++ ["version"] ∧
      Json.tokens controlPlanePath = ["spec", "topology", "controlPlane"] ++ ["replicas"] ∧
      Json.tokens namePath = ["spec", "topology", "workers", "machineDeployments"] ++ ["0", "name"] ∧
      Json.tokens replicasPath = ["spec", "topology", "workers", "machineDeployments", "0"] ++ ["replicas"]) ∧
      Json.index "0" = some 0 ∧
      ∀ t ∈ ["spec", "topology", "controlPlane", "workers", "version", "replicas"], Json.index t = none := by
  unfold Json.tokens split
  rw [toList_eq versionPath rfl, toList_eq controlPlanePath rfl, toList_eq namePath rfl, toList_eq replicasPath rfl]
  decide

theorem tokens_versionPath : Json.tokens versionPath = ["spec", "topology"] ++ ["version"] := tokens_paths.1.1

theorem tokens_controlPlanePath :
    Json.tokens controlPlanePath = ["spec", "topology", "controlPlane"] ++ ["replicas"] := tokens_paths.1.2.1

theorem tokens_namePath :
    Json.tokens namePath = ["spec", "topology", "workers", "machineDeployments"] ++ ["0", "name"] :=
  tokens_paths.1.2.2.1

theorem tokens_replicasPath :
    Json.tokens replicasPath = ["spec", "topology", "workers", "machineDeployments", "0"] ++ ["replicas"] :=
  tokens_paths.1.2.2.2

theorem index_zero : Json.index "0" = some 0 := tokens_paths.2.1

theorem index_name : ∀ t ∈ ["spec", "topology", "controlPlane", "workers", "version", "replicas"],
    Json.index t = none := tokens_paths.2.2

theorem child_zero (gs : List Json) : Json.child "0" (.arr gs) = gs.head? := by
  simp [Json.child, index_zero, List.head?_eq_getElem?]

variable {c c' : ClusterObject}

theorem apply_controlPlane {n : ℕ}
    (h : (Json.PatchOp.add controlPlanePath (.num n)).apply c = some c') :
    topologyVersion c' = topologyVersion c ∧ machineDeployments c' = machineDeployments c := by
  have hset := Json.patch_add tokens_controlPlanePath (index_name _ (by simp)) (by decide) h
  have hbeside := hset.beside ["spec", "topology"] "controlPlane" [] rfl (index_name _ (by simp))
  constructor
  · exact congrArg (·.bind Json.asString) (hbeside "version" [] (by decide))
  · exact congrArg (·.bind Json.asArray) (hbeside "workers" ["machineDeployments"] (by decide))

theorem patch_version {current new : String}
    (h : Json.patch [.test versionPath current, .replace versionPath (.str new)] c = some c') :
    topologyVersion c = some current ∧ topologyVersion c' = some new ∧
      machineDeployments c' = machineDeployments c := by
  rw [Json.patch_cons] at h
  obtain ⟨k, htest, hrest⟩ := bind_eq_some_iff.mp h
  obtain ⟨rfl, hcurrent⟩ := Json.patch_test htest
  rw [Json.patch_cons] at hrest
  obtain ⟨k', hreplace, hdone⟩ := bind_eq_some_iff.mp hrest
  obtain rfl := some.inj hdone
  rw [tokens_versionPath] at hcurrent
  have hset := Json.patch_replace tokens_versionPath (index_name _ (by simp)) hreplace
  refine ⟨hcurrent, ?_, ?_⟩
  · exact congrArg (·.bind Json.asString) hset.set
  · exact congrArg (·.bind Json.asArray) (hset.others "workers" ["machineDeployments"] (by decide))

theorem patch_workers {name : String} {n : ℕ}
    (h : Json.patch [.test namePath name, .add replicasPath (.num n)] c = some c') :
    topologyVersion c' = topologyVersion c ∧
      (machineDeployments c').isSome = (machineDeployments c).isSome ∧
      ((machineDeployments c).isSome → ∃ g g' gs, machineDeployments c = some (g :: gs) ∧
        machineDeployments c' = some (g' :: gs) ∧ groupName g = some name ∧
        Json.child "replicas" g' = some (.num n) ∧
        ∀ u, u ≠ "replicas" → Json.child u g' = Json.child u g) := by
  rw [Json.patch_cons] at h
  obtain ⟨k, htest, hrest⟩ := bind_eq_some_iff.mp h
  obtain ⟨rfl, hname⟩ := Json.patch_test htest
  rw [Json.patch_cons] at hrest
  obtain ⟨k', hadd, hdone⟩ := bind_eq_some_iff.mp hrest
  obtain rfl := some.inj hdone
  rw [tokens_namePath, Json.getAt_append] at hname
  have hset := Json.patch_add tokens_replicasPath (index_name _ (by simp)) (by decide) hadd
  have hversion := hset.beside ["spec", "topology"] "workers" ["machineDeployments", "0"] rfl
    (index_name _ (by simp)) "version" [] (by decide)
  -- The list of groups is where the patch changes its first element.
  simp only [Json.PatchOp.apply, tokens_replicasPath, List.getLast?_concat, dropLast_concat] at hadd
  rw [show ["spec", "topology", "workers", "machineDeployments", "0"] =
    ["spec", "topology", "workers", "machineDeployments"] ++ ["0"] from rfl,
    Json.modifyAt_append] at hadd
  obtain ⟨v, v', hget, hmade, hget'⟩ := Json.getAt_modifyAt hadd
  rw [hget, bind_some] at hname
  obtain ⟨g, hg, hmade⟩ := bind_eq_some_iff.mp hmade
  obtain ⟨g', hg', rfl⟩ := map_eq_some_iff.mp hmade
  refine ⟨congrArg (·.bind Json.asString) hversion, ?_, ?_⟩
  · unfold machineDeployments
    rw [hget, hget']
    cases v <;> rfl
  · intro harr
    unfold machineDeployments at harr ⊢
    rw [hget, bind_some] at harr ⊢
    rw [hget', bind_some]
    cases v with
    | arr gs =>
      rw [child_zero] at hg
      obtain ⟨rest, rfl⟩ := List.head?_eq_some_iff.mp hg
      have hgroup : groupName g = some name := by
        simpa [Json.getAt, child_zero, groupName] using hname
      obtain ⟨hreplicas, hothers⟩ := Json.child_addChild (index_name _ (by simp)) (by decide) hg'
      refine ⟨g, g', rest, rfl, ?_, hgroup, hreplicas, hothers⟩
      simp [Json.withChild, Json.asArray, index_zero]
    | _ => cases harr

/-! ### What an edit's patch consists of -/

inductive VersionPart (read : ClusterObject) : Option String → List Json.PatchOp → Prop
  | none : VersionPart read none []
  | some {current new : String} (hread : topologyVersion read = some current)
      (hallowed : upgradeError current new = none) :
      VersionPart read (some new) [.test versionPath current, .replace versionPath (.str new)]

inductive WorkersPart (read : ClusterObject) : Option ℕ → List Json.PatchOp → Prop
  | none : WorkersPart read none []
  | some {name : String} (n : ℕ) (hread : firstGroup read = some name) :
      WorkersPart read (some n) [.test namePath name, .add replicasPath (.num n)]

theorem present_eq_some {s : Option String} {t : String} (h : present s = some t) : s = some t :=
  (Option.filter_eq_some_iff.mp h).1

variable {ops : List Json.PatchOp}

theorem buildVersionPatch_eq_ok {version : Option String}
    (h : buildVersionPatch c version = .ok ops) : VersionPart c version ops := by
  unfold buildVersionPatch at h
  split at h
  · obtain rfl := ok.inj h
    exact .none
  · split at h
    · cases h
    · rename_i current hcurrent
      split at h
      · cases h
      · rename_i hallowed
        obtain rfl := ok.inj h
        exact .some (present_eq_some hcurrent) hallowed

theorem buildScalePatch_eq_ok {cps workers : Option ℕ}
    (h : buildScalePatch c cps workers = .ok ops) :
    ∃ wops, ops = (cps.elim [] fun n => [.add controlPlanePath (.num n)]) ++ wops ∧
      WorkersPart c workers wops := by
  unfold buildScalePatch at h
  split at h
  · obtain rfl := ok.inj h
    exact ⟨[], (append_nil _).symm, .none⟩
  · split at h
    · cases h
    · rename_i n x name hname
      obtain rfl := ok.inj h
      exact ⟨_, rfl, .some n (present_eq_some hname)⟩

theorem buildClusterPatch_eq_ok {r : ClusterPatchRequest}
    (h : buildClusterPatch c r = .ok ops) :
    ∃ vops wops,
      ops = vops ++ ((r.controlPlaneCount.elim [] fun n => [.add controlPlanePath (.num n)]) ++ wops) ∧
        VersionPart c r.kubernetesVersion vops ∧ WorkersPart c r.workerCount wops := by
  unfold buildClusterPatch at h
  cases hversion : buildVersionPatch c r.kubernetesVersion with
  | error e => rw [hversion] at h; cases h
  | ok vops =>
    rw [hversion] at h
    have hvops := buildVersionPatch_eq_ok hversion
    simp only [bind, Except.bind] at h
    split_ifs at h with hcounts
    · cases hscale : buildScalePatch c r.controlPlaneCount r.workerCount with
      | error e => rw [hscale] at h; cases h
      | ok sops =>
        rw [hscale] at h
        obtain ⟨wops, hsops, hwops⟩ := buildScalePatch_eq_ok hscale
        obtain rfl := ok.inj h
        exact ⟨vops, wops, by rw [hsops], hvops, hwops⟩
    · obtain rfl := ok.inj h
      have hnone : r.controlPlaneCount = none ∧ r.workerCount = none := by
        simpa using hcounts
      rw [hnone.1, hnone.2]
      exact ⟨vops, [], by simp, hvops, .none⟩

/-! ### One step -/

def VersionLaw (before after : ClusterObject) : Prop :=
  topologyVersion after = topologyVersion before ∨
    ∃ old new, topologyVersion before = some old ∧ topologyVersion after = some new ∧
      OneMinorUp old new

def exactRequest (_ : ApiServer) : EditAction → Prop
  | .read request => request.kubernetesVersion.all readsExactly
  | _ => True

instance (s : ApiServer) (a : EditAction) : Decidable (exactRequest s a) := by
  cases a <;> unfold exactRequest <;> infer_instance

/-- Each edit so far was accepted, and left a version that `Number` reads exactly. -/
structure EditsInv (s : ApiServer) : Prop where
  exact : (topologyVersion s.cluster).all readsExactly
  accepted : ∀ e ∈ s.edits, e.request.accepted
  requested : ∀ e ∈ s.edits, e.request.kubernetesVersion.all readsExactly
  groups : ∀ e ∈ s.edits, (machineDeployments e.read).isSome = (machineDeployments s.cluster).isSome

theorem accepted_version {r : ClusterPatchRequest} {version : String} (h : r.accepted)
    (hversion : r.kubernetesVersion = some version) : (versionGroups version.toList).isSome := by
  simp only [ClusterPatchRequest.accepted, Bool.and_eq_true, hversion, all_some] at h
  exact h.1.2

theorem edit_patched {e : Edit} (hops : e.patch = some ops)
    (h : Json.patch ops c = some c') (haccepted : e.request.accepted)
    (hexact : (topologyVersion c).all readsExactly)
    (hrequested : e.request.kubernetesVersion.all readsExactly)
    (hgroups : (machineDeployments e.read).isSome = (machineDeployments c).isSome) :
    VersionLaw c c' ∧ (topologyVersion c').all readsExactly ∧
      (machineDeployments c').isSome = (machineDeployments c).isSome ∧
      ∀ n, e.request.workerCount = some n → ScalesRead e.read n c c' := by
  unfold Edit.patch at hops
  cases hbuilt : buildClusterPatch e.read e.request with
  | error err => rw [hbuilt] at hops; cases hops
  | ok built =>
    rw [hbuilt] at hops
    obtain rfl := some.inj hops
    obtain ⟨vops, wops, rfl, hvops, hwops⟩ := buildClusterPatch_eq_ok hbuilt
    obtain ⟨c₁, hv, hrest⟩ := Json.patch_append h
    obtain ⟨c₂, hcps, hw⟩ := Json.patch_append hrest
    -- The version, then the control plane, then the workers.
    have hfirst : VersionLaw c c₁ ∧ (topologyVersion c₁).all readsExactly ∧
        machineDeployments c₁ = machineDeployments c := by
      generalize hver : e.request.kubernetesVersion = version at hvops hrequested
      cases hvops with
      | none =>
        obtain rfl := some.inj hv
        exact ⟨.inl rfl, hexact, rfl⟩
      | some hread hallowed =>
        rename_i current new
        obtain ⟨hold, hnew, hsame⟩ := patch_version hv
        rw [hold] at hexact
        have hup := upgradeError_eq_none hexact hrequested (accepted_version haccepted hver) hallowed
        refine ⟨.inr ⟨current, new, hold, hnew, hup⟩, ?_, hsame⟩
        rw [hnew]
        exact hrequested
    have hsecond : topologyVersion c₂ = topologyVersion c₁ ∧
        machineDeployments c₂ = machineDeployments c₁ := by
      cases hcount : e.request.controlPlaneCount with
      | none =>
        rw [hcount] at hcps
        obtain rfl := some.inj hcps
        exact ⟨rfl, rfl⟩
      | some n =>
        rw [hcount] at hcps
        obtain ⟨k, hadd, hdone⟩ := bind_eq_some_iff.mp hcps
        obtain rfl := some.inj hdone
        exact apply_controlPlane hadd
    have hthird : topologyVersion c' = topologyVersion c₂ ∧
        (machineDeployments c').isSome = (machineDeployments c₂).isSome ∧
        ∀ n, e.request.workerCount = some n → ScalesRead e.read n c₂ c' := by
      generalize e.request.workerCount = workers at hwops
      cases hwops with
      | none =>
        obtain rfl := some.inj hw
        exact ⟨rfl, rfl, fun n hn => nomatch hn⟩
      | some n hread =>
        rename_i name
        obtain ⟨hver, hsome, hscaled⟩ := patch_workers hw
        refine ⟨hver, hsome, fun m hm => ?_⟩
        obtain rfl := some.inj hm
        have hthere : (machineDeployments c₂).isSome := by
          rw [hsecond.2, hfirst.2.2, ← hgroups]
          obtain ⟨gs, hgs, -⟩ := bind_eq_some_iff.mp hread
          rw [hgs]
          rfl
        obtain ⟨g, g', gs, hbefore, hafter, hname, hreplicas, hothers⟩ := hscaled hthere
        exact ⟨g, g', gs, name, hbefore, hafter, hread, hname, hreplicas, hothers⟩
    refine ⟨?_, ?_, ?_, ?_⟩
    · unfold VersionLaw
      rw [hthird.1, hsecond.1]
      exact hfirst.1
    · rw [hthird.1, hsecond.1]
      exact hfirst.2.1
    · rw [hthird.2.1, hsecond.2, hfirst.2.2]
    · intro n hn
      obtain ⟨g, g', gs, name, hbefore, hrest⟩ := hthird.2.2 n hn
      rw [hsecond.2, hfirst.2.2] at hbefore
      exact ⟨g, g', gs, name, hbefore, hrest⟩

theorem reordered_kept {order : List ℕ} (h : reordered order c = some c') :
    topologyVersion c' = topologyVersion c ∧
      (machineDeployments c').isSome = (machineDeployments c).isSome := by
  have hpath : Json.modifyAt _ (["spec", "topology"] ++ "workers" :: ["machineDeployments"]) c =
    some c' := h
  have hversion : Json.getAt (["spec", "topology"] ++ "version" :: []) c' =
      Json.getAt (["spec", "topology"] ++ "version" :: []) c :=
    Json.getAt_modifyAt_ne (index_name _ (by simp)) (by decide) hpath
  obtain ⟨v, v', hget, hmade, hget'⟩ := Json.getAt_modifyAt h
  refine ⟨congrArg (·.bind Json.asString) hversion, ?_⟩
  unfold machineDeployments
  rw [hget, hget']
  split at hmade
  · split_ifs at hmade
    obtain rfl := some.inj hmade
    rfl
  · cases hmade

theorem editsInv_step {s t : ApiServer} {a : EditAction} (hinv : EditsInv s)
    (hok : exactRequest s a) (hs : s.step a = some t) :
    EditsInv t ∧ VersionLaw s.cluster t.cluster ∧
      ∀ i e n, a = .apply i → s.edits[i]? = some e → e.request.workerCount = some n →
        ScalesRead e.read n s.cluster t.cluster := by
  cases a with
  | read request =>
    dsimp only [ApiServer.step] at hs
    split_ifs at hs with haccepted
    obtain rfl := some.inj hs
    refine ⟨⟨hinv.exact, ?_, ?_, ?_⟩, .inl rfl, fun i e n ha => nomatch ha⟩
    · intro e he
      rcases mem_append.mp he with he | he
      · exact hinv.accepted e he
      · rw [mem_singleton.mp he]
        exact haccepted
    · intro e he
      rcases mem_append.mp he with he | he
      · exact hinv.requested e he
      · rw [mem_singleton.mp he]
        exact hok
    · intro e he
      rcases mem_append.mp he with he | he
      · exact hinv.groups e he
      · rw [mem_singleton.mp he]
  | apply i =>
    obtain ⟨e, he, hs⟩ := bind_eq_some_iff.mp hs
    obtain ⟨ops, hops, hs⟩ := bind_eq_some_iff.mp hs
    obtain ⟨c, hc, rfl⟩ := map_eq_some_iff.mp hs
    have hmem := mem_of_getElem? he
    obtain ⟨hlaw, hexact, hsome, hscales⟩ := edit_patched hops hc (hinv.accepted e hmem) hinv.exact
      (hinv.requested e hmem) (hinv.groups e hmem)
    refine ⟨⟨hexact, hinv.accepted, hinv.requested, fun e' he' => ?_⟩, hlaw, ?_⟩
    · rw [hsome]
      exact hinv.groups e' he'
    · intro j e' n hj he' hn
      obtain rfl := EditAction.apply.inj hj
      obtain rfl := some.inj (he.symm.trans he')
      exact hscales n hn
  | reorder order =>
    obtain ⟨c, hc, rfl⟩ := map_eq_some_iff.mp hs
    obtain ⟨hversion, hsome⟩ := reordered_kept hc
    refine ⟨⟨?_, hinv.accepted, hinv.requested, fun e he => ?_⟩, .inl hversion,
      fun i e n ha => nomatch ha⟩
    · show (topologyVersion c).all readsExactly
      rw [hversion]
      exact hinv.exact
    · rw [hsome]
      exact hinv.groups e he

/-! ### Every run -/

/-- In every run of edits whose versions are read exactly, the version goes up by one minor version
at most at a time, and an edit that scales the workers scales the group it read. -/
theorem edits_one_minor_and_own_group {start s t : ApiServer} {a : EditAction}
    (hstart : start.edits = []) (hexact : (topologyVersion start.cluster).all readsExactly)
    (hrun : Run ApiServer.step exactRequest start s) (hok : exactRequest s a)
    (hs : s.step a = some t) :
    VersionLaw s.cluster t.cluster ∧
      ∀ i e n, a = .apply i → s.edits[i]? = some e → e.request.workerCount = some n →
        ScalesRead e.read n s.cluster t.cluster := by
  have hempty : EditsInv start := by
    refine ⟨hexact, ?_, ?_, ?_⟩
    all_goals
      intro e he
      rw [hstart] at he
      cases he
  have hinv : EditsInv s :=
    hrun.invariant (I := EditsInv) hempty fun _ _ _ h hok hs => (editsInv_step h hok hs).1
  exact (editsInv_step hinv hok hs).2

theorem step_read (s : ApiServer) {request : ClusterPatchRequest} (h : request.accepted) :
    s.step (.read request) = some { s with edits := s.edits ++ [⟨request, s.cluster⟩] } :=
  if_pos h

def clusterAt (version : String) : ClusterObject :=
  .obj [("spec", .obj [("topology", .obj [("version", .str version),
    ("controlPlane", .obj [("replicas", .num 1)]),
    ("workers", .obj [("machineDeployments",
      .arr [.obj [("name", .str "md-0"), ("replicas", .num 1)]])])])])]

/-- Two edits read `v1.36.4`; the first one to arrive upgrades it and scales the workers. -/
theorem edit_of_two_upgrades :
    ∃ s t, Run ApiServer.step exactRequest ⟨clusterAt "v1.36.4", []⟩ s ∧
      s.step (.apply 1) = some t ∧ topologyVersion t.cluster = some "v1.37.0" ∧
      VersionLaw s.cluster t.cluster ∧
      ∃ e, s.edits[1]? = some e ∧ ScalesRead e.read 3 s.cluster t.cluster := by
  have hrun : Run ApiServer.step exactRequest ⟨clusterAt "v1.36.4", []⟩
      ⟨clusterAt "v1.36.4", [⟨⟨none, none, some "v1.37.1"⟩, clusterAt "v1.36.4"⟩,
        ⟨⟨some 3, some 3, some "v1.37.0"⟩, clusterAt "v1.36.4"⟩]⟩ := by
    refine .tail (.read ⟨some 3, some 3, some "v1.37.0"⟩)
      (.tail (.read ⟨none, none, some "v1.37.1"⟩) .refl ?_ (step_read _ (by decide)))
      ?_ (step_read _ (by decide))
    · show (some "v1.37.1").all readsExactly
      decide
    · show (some "v1.37.0").all readsExactly
      decide
  have hversion : ((ApiServer.step
      ⟨clusterAt "v1.36.4", [⟨⟨none, none, some "v1.37.1"⟩, clusterAt "v1.36.4"⟩,
        ⟨⟨some 3, some 3, some "v1.37.0"⟩, clusterAt "v1.36.4"⟩]⟩ (.apply 1)).map fun t =>
      topologyVersion t.cluster) = some (some "v1.37.0") := by
    decide +kernel
  obtain ⟨t, ht, hnew⟩ := map_eq_some_iff.mp hversion
  have hok (s : ApiServer) : exactRequest s (.apply 1) := trivial
  have hlaw := edits_one_minor_and_own_group rfl (by decide) hrun (hok _) ht
  exact ⟨_, t, hrun, ht, hnew, hlaw.1, _, rfl, hlaw.2 1 _ 3 rfl rfl rfl⟩

/-- A minor version is skipped: both numbers are read as they are written only below `2 ^ 53`. -/
theorem edit_skips_minor_version :
    ∃ s t, Run ApiServer.step (fun _ _ => True) ⟨clusterAt "v1.9007199254740991.0", []⟩ s ∧
      s.step (.apply 0) = some t ∧ ¬ VersionLaw s.cluster t.cluster := by
  have hrun : Run ApiServer.step (fun _ _ => True) ⟨clusterAt "v1.9007199254740991.0", []⟩
      ⟨clusterAt "v1.9007199254740991.0",
        [⟨⟨none, none, some "v1.9007199254740993.0"⟩, clusterAt "v1.9007199254740991.0"⟩]⟩ :=
    .tail (.read ⟨none, none, some "v1.9007199254740993.0"⟩) .refl trivial (step_read _ (by decide))
  have hversion : ((ApiServer.step ⟨clusterAt "v1.9007199254740991.0",
      [⟨⟨none, none, some "v1.9007199254740993.0"⟩, clusterAt "v1.9007199254740991.0"⟩]⟩
      (.apply 0)).map fun t => topologyVersion t.cluster) = some (some "v1.9007199254740993.0") := by
    decide +kernel
  obtain ⟨t, ht, hnew⟩ := map_eq_some_iff.mp hversion
  have hold : topologyVersion (clusterAt "v1.9007199254740991.0") = some "v1.9007199254740991.0" := by
    decide
  refine ⟨_, t, hrun, ht, ?_⟩
  rintro (hsame | ⟨old, new, hold', hnew', x, y, z, y', z', hread, hread', hone, -⟩)
  · rw [hnew, hold] at hsame
    exact absurd hsame (by decide)
  · obtain rfl := some.inj (hold.symm.trans hold')
    obtain rfl := some.inj (hnew.symm.trans hnew')
    have hy : writtenNumbers (trim "v1.9007199254740991.0".toList) = some (1, 9007199254740991, 0) := by
      decide
    have hy' : writtenNumbers "v1.9007199254740993.0".toList = some (1, 9007199254740993, 0) := by
      decide
    have hnumbers := some.inj (hy.symm.trans hread)
    have hnumbers' := some.inj (hy'.symm.trans hread')
    simp only [Prod.mk.injEq] at hnumbers hnumbers'
    omega

end IncusCloud.Agent
