import IncusCloud.Kubernetes.Quota
import IncusCloud.Lib.Keyed

/-!
# Workload clusters stay within the quota

As long as every cluster is counted in full whenever a request adds up what there is, and a `PATCH`
grows a cluster by no more than it asks room for, the tenant's workload clusters stay within its
quota.

The usages that are added up are of the clusters' nodes as a pass has read them. What the invariant
needs of such a usage is that its parts are parts of it (`Accounts`).
-/

namespace IncusCloud.Kubernetes

open Lib List
open Option (map_eq_some_iff some.inj)
open Tenants (Usage Quotas QuotaKey quotaKeys sumUsage exceeds quotaBytes)

/-- What a change asks room for: nothing where no node is added. -/
def Change.asked : Change → Usage
  | .create row => row.usage
  | .scale cur body => fun k =>
    if 0 < grow cur (Management.patched body cur) .instances then
      grow cur (Management.patched body cur) k
    else 0

def partsOf (usages : List (Option ReadUsage)) (id : String) : Usage := fun k =>
  (usages.map fun u => u.elim 0 (·.parts id k)).sum

def plus (a b : Usage) : Usage := fun k => a k + b k

def AtMost (a b : Usage) : Prop := ∀ k, a k ≤ b k

theorem mem_keys (k : QuotaKey) : k ∈ quotaKeys := by
  cases k <;> decide

instance (a b : Usage) : Decidable (AtMost a b) :=
  decidable_of_iff ((quotaKeys.all fun k => Nat.ble (a k) (b k)) = true) (by
    rw [all_eq_true]
    exact ⟨fun h k => Nat.le_of_ble_eq_true (h k (mem_keys k)), fun h k _ => Nat.ble_eq.mpr (h k)⟩)

namespace TenantClusters

variable {t t' : TenantClusters} {k : QuotaKey}

/-- Every cluster is in the usages that were read, or its create is pending; and a `PATCH` grows the
cluster by no more than it asks room for. -/
def counted (t : TenantClusters) : QuotaAction → Prop
  | .readPending =>
    match t.check with
    | .summed _ usages => ∀ r ∈ t.rows,
      AtMost r.usage (plus (partsOf usages r.id) (t.pendingFor r.id))
    | _ => True
  | .readRow =>
    match t.check with
    | .patching id body =>
      match t.row id with
      | some cur => AtMost (Management.patched body cur).usage
        (plus cur.usage (Change.scale cur body).asked)
      | none => True
    | _ => True
  | _ => True

instance (t : TenantClusters) (a : QuotaAction) : Decidable (t.counted a) := by
  unfold counted
  split
  · split <;> infer_instance
  · split
    · split <;> infer_instance
    · infer_instance
  · infer_instance

/-! ### What holds -/

def Accounts (t : TenantClusters) (read : Option ReadUsage) : Prop :=
  ∀ x ∈ read, (∀ k, (t.rows.map fun r => x.parts r.id k).sum ≤ x.usage k) ∧
    ∀ id k, x.parts id k ≠ 0 → id ∈ t.used

def ChangeOk (t : TenantClusters) : Change → Prop
  | .create _ => True
  | .scale cur body =>
    (∀ r ∈ t.rows, r.id = cur.id →
      r.spec = cur.spec ∧ r.controlPlanes = cur.controlPlanes ∧ r.workers = cur.workers) ∧
    AtMost (Management.patched body cur).usage (plus cur.usage (Change.scale cur body).asked)

def CheckOk (t : TenantClusters) : QuotaCheck → Prop
  | .free => True
  | .patching _ _ => True
  | .locked change => t.ChangeOk change
  | .summed change usages => t.ChangeOk change ∧ ∀ u ∈ usages, t.Accounts u
  | .within change =>
    t.ChangeOk change ∧ ∀ k n, quotaBytes t.quotas k = some n → t.total k + change.asked k ≤ n

/-- What is there or asked for is counted, and within the quotas. -/
structure Sound (t : TenantClusters) : Prop where
  ids : (t.rows.map (·.id)).Nodup
  used : ∀ r ∈ t.rows, r.id ∈ t.used
  placements : ∀ p ∈ t.placements, t.Accounts p.read
  passes : ∀ p ∈ t.passes, t.Accounts p.read
  check : t.CheckOk t.check
  total : ∀ k n, quotaBytes t.quotas k = some n → t.total k ≤ n

/-! ### What is added up -/

theorem pendingOf_eq (t : TenantClusters) (k : QuotaKey) :
    t.pendingOf k = ((t.jobs.filter (·.active)).map fun j => j.usage k).sum := by
  unfold pendingOf sumUsage
  rw [map_map]
  rfl

theorem sum_pendingFor_le (hids : (t.rows.map (·.id)).Nodup) (k : QuotaKey) :
    (t.rows.map fun r => t.pendingFor r.id k).sum ≤ t.pendingOf k := by
  rw [pendingOf_eq]
  have hone : ∀ r : K8sRow, t.pendingFor r.id k =
      ((t.jobs.filter (·.active)).map fun j => if r.id = j.k8sId then j.usage k else 0).sum := by
    intro r
    unfold pendingFor
    simp only [Bool.decide_and, Bool.decide_eq_true]
    induction t.jobs with
    | nil => rfl
    | cons j jobs ih =>
      by_cases hactive : j.active
      · by_cases hid : j.k8sId = r.id
        · simp [hactive, hid, ih]
        · have hid' : r.id ≠ j.k8sId := fun h => hid h.symm
          simp [hactive, hid, hid', ih]
      · simp [hactive, ih]
  simp only [hone]
  rw [sum_map_comm]
  refine sum_le_sum fun j _ => ?_
  exact sum_map_at_le hids j.k8sId (j.usage k)

variable {usages : List (Option ReadUsage)}

theorem sum_partsOf_le (h : ∀ u ∈ usages, t.Accounts u) (k : QuotaKey) :
    (t.rows.map fun r => partsOf usages r.id k).sum ≤
      sumUsage (usages.map (Option.map (·.usage))) k := by
  unfold partsOf sumUsage
  rw [sum_map_comm, map_map]
  refine sum_le_sum fun u hu => ?_
  cases u with
  | none => simp
  | some x => exact (h (some x) hu x rfl).1 k

theorem total_le_used (hids : (t.rows.map (·.id)).Nodup)
    (h : ∀ u ∈ usages, t.Accounts u)
    (hcounted : ∀ r ∈ t.rows, AtMost r.usage (plus (partsOf usages r.id) (t.pendingFor r.id)))
    (k : QuotaKey) :
    t.total k ≤ sumUsage (usages.map (Option.map (·.usage)) ++ [some t.pendingOf]) k := by
  have hrows : t.total k ≤ (t.rows.map fun r => partsOf usages r.id k + t.pendingFor r.id k).sum :=
    sum_le_sum fun r hr => hcounted r hr k
  rw [sum_map_add] at hrows
  have hparts := sum_partsOf_le h k
  have hpending := sum_pendingFor_le hids k
  have hsum : sumUsage (usages.map (Option.map (·.usage)) ++ [some t.pendingOf]) k =
      sumUsage (usages.map (Option.map (·.usage))) k + t.pendingOf k := by
    unfold sumUsage
    rw [map_append, sum_append, map_singleton, sum_singleton]
    rfl
  omega

theorem le_of_exceeds_nil {q : Quotas} {used request : Usage} (h : exceeds q used request = [])
    {n : ℕ} (hn : quotaBytes q k = some n) (hpos : request k ≠ 0) : used k + request k ≤ n := by
  have hnone := filterMap_eq_nil_iff.mp h k (mem_keys k)
  obtain ⟨given, hgiven, -⟩ := map_eq_some_iff.mp hn
  rw [hn, hgiven] at hnone
  dsimp only at hnone
  rw [if_neg hpos] at hnone
  by_contra hover
  rw [if_pos (by omega)] at hnone
  cases hnone

theorem asked_le_request (change : Change) (k : QuotaKey) : change.asked k ≤ change.request k := by
  cases change with
  | create row => exact Nat.le_refl _
  | scale cur body =>
    show (if 0 < grow cur (Management.patched body cur) .instances then
      grow cur (Management.patched body cur) k else 0) ≤ grow cur (Management.patched body cur) k
    split_ifs
    · exact Nat.le_refl _
    · exact Nat.zero_le _

/-! ### Steps -/

/-- There are no more clusters than there were, and none of them is larger. -/
structure Lessens (t t' : TenantClusters) : Prop where
  quotas : t'.quotas = t.quotas
  used : t'.used = t.used
  ids : (t'.rows.map (·.id)).Sublist (t.rows.map (·.id))
  rows : ∀ r' ∈ t'.rows, ∃ r ∈ t.rows, r'.id = r.id ∧ r'.spec = r.spec ∧
    r'.controlPlanes = r.controlPlanes ∧ r'.workers = r.workers
  total : ∀ k, t'.total k ≤ t.total k

theorem Lessens.of_rows (hquotas : t'.quotas = t.quotas) (hused : t'.used = t.used)
    (hrows : t'.rows = t.rows) : Lessens t t' := by
  refine ⟨hquotas, hused, ?_, fun r hr => ⟨r, hrows ▸ hr, rfl, rfl, rfl, rfl⟩, fun k => ?_⟩
  · rw [hrows]
  · unfold TenantClusters.total
    rw [hrows]

theorem Accounts.lessens {read : Option ReadUsage} (h : t.Accounts read) (hl : Lessens t t') :
    t'.Accounts read := by
  intro x hx
  obtain ⟨hsum, hparts⟩ := h x hx
  refine ⟨fun k => Nat.le_trans ?_ (hsum k), fun id k hne => ?_⟩
  · have hsub := (hl.ids.map fun id => x.parts id k).sum_le_sum fun _ _ => Nat.zero_le _
    rw [map_map, map_map] at hsub
    exact hsub
  · rw [hl.used]
    exact hparts id k hne

theorem ChangeOk.lessens {change : Change} (h : t.ChangeOk change) (hl : Lessens t t') :
    t'.ChangeOk change := by
  cases change with
  | create row => trivial
  | scale cur body =>
    refine ⟨fun r' hr' hid => ?_, h.2⟩
    obtain ⟨r, hr, hsame, hspec, hcps, hworkers⟩ := hl.rows r' hr'
    obtain ⟨hspec', hcps', hworkers'⟩ := h.1 r hr (hsame.symm.trans hid)
    exact ⟨hspec.trans hspec', hcps.trans hcps', hworkers.trans hworkers'⟩

theorem CheckOk.lessens {c : QuotaCheck} (h : t.CheckOk c) (hl : Lessens t t') : t'.CheckOk c := by
  cases c with
  | free => trivial
  | patching id body => trivial
  | locked change => exact ChangeOk.lessens h hl
  | summed change usages => exact ⟨h.1.lessens hl, fun u hu => (h.2 u hu).lessens hl⟩
  | within change =>
    refine ⟨h.1.lessens hl, fun k n hn => ?_⟩
    rw [hl.quotas] at hn
    have hroom := h.2 k n hn
    have hless := hl.total k
    omega

theorem Sound.lessens (h : t.Sound) (hl : Lessens t t')
    (hplacements : ∀ p ∈ t'.placements, t.Accounts p.read) (hpasses : ∀ p ∈ t'.passes, t.Accounts p.read)
    (hcheck : t.CheckOk t'.check) : t'.Sound := by
  refine ⟨h.ids.sublist hl.ids, fun r' hr' => ?_, fun p hp => (hplacements p hp).lessens hl,
    fun p hp => (hpasses p hp).lessens hl, hcheck.lessens hl, fun k n hn => ?_⟩
  · obtain ⟨r, hr, hid, -⟩ := hl.rows r' hr'
    rw [hl.used, hid]
    exact h.used r hr
  · rw [hl.quotas] at hn
    exact Nat.le_trans (hl.total k) (h.total k n hn)

theorem Sound.setCheck (h : t.Sound) {c : QuotaCheck} (hc : t.CheckOk c) :
    ({ t with check := c } : TenantClusters).Sound :=
  h.lessens (.of_rows rfl rfl rfl) h.placements h.passes hc

theorem ids_updateRow {id : String} {f : K8sRow → K8sRow} (hid : ∀ r, (f r).id = r.id) :
    ((t.updateRow id f).rows.map (·.id)) = t.rows.map (·.id) := by
  unfold updateRow
  rw [map_map]
  refine map_congr_left fun r _ => ?_
  show (if r.id = id then f r else r).id = r.id
  split_ifs
  · exact hid r
  · rfl

theorem lessens_setStatus {id : String} {status : K8sStatus} :
    Lessens t (t.updateRow id fun r => { r with status := status }) := by
  refine ⟨rfl, rfl, ?_, fun r' hr' => ?_, fun k => ?_⟩
  · have hids : (t.updateRow id fun r => { r with status := status }).rows.map (·.id) =
        t.rows.map (·.id) := ids_updateRow fun _ => rfl
    rw [hids]
  · obtain ⟨r, hr, rfl⟩ := List.mem_map.mp hr'
    refine ⟨r, hr, ?_⟩
    split_ifs
    · exact ⟨rfl, rfl, rfl, rfl⟩
    · exact ⟨rfl, rfl, rfl, rfl⟩
  · unfold total updateRow
    rw [map_map]
    refine sum_le_sum fun r _ => ?_
    show (if r.id = id then { r with status := status } else r).usage k ≤ r.usage k
    split_ifs
    · exact Nat.le_refl _
    · exact Nat.le_refl _

theorem lessens_remove {id : String} : Lessens t { t with rows := t.rows.filter (·.id ≠ id) } := by
  have hsub : (t.rows.filter (·.id ≠ id)).Sublist t.rows := filter_sublist
  refine ⟨rfl, rfl, hsub.map _, fun r hr => ⟨r, hsub.mem hr, rfl, rfl, rfl, rfl⟩, fun k => ?_⟩
  exact (hsub.map fun r => r.usage k).sum_le_sum fun _ _ => Nat.zero_le _

theorem Sound.accounts_projectUsage (h : t.Sound) (cluster : String) :
    t.Accounts (some (t.projectUsage cluster)) := by
  intro x hx
  obtain rfl := some.inj hx
  refine ⟨fun k => sum_le_sum fun r hr => ?_, fun id k hne => ?_⟩
  · have hfound : t.row r.id = some r := by
      unfold row
      cases hrow : t.rows.find? (fun x => x.id = r.id) with
      | none =>
        have hnone := List.find?_eq_none.mp hrow r hr
        simp at hnone
      | some r' =>
        have hid : r'.id = r.id := by simpa using List.find?_some hrow
        rw [inj_on_of_nodup_map h.ids (mem_of_find?_eq_some hrow) hr hid]
    show (t.row r.id).elim 0 (fun r' => if r'.clusterId = cluster then t.nodes r.id k else 0) ≤ _
    rw [hfound]
    exact Nat.le_refl _
  · cases hrow : t.row id with
    | none =>
      refine absurd ?_ hne
      show (t.row id).elim 0 _ = 0
      rw [hrow]
      rfl
    | some r =>
      have hid : r.id = id := by simpa using List.find?_some hrow
      rw [← hid]
      exact h.used r (mem_of_find?_eq_some hrow)

theorem Sound.within (h : t.Sound) {change : Change}
    (hc : t.CheckOk (.summed change usages))
    (hcounted : ∀ r ∈ t.rows, AtMost r.usage (plus (partsOf usages r.id) (t.pendingFor r.id)))
    (hroom : exceeds t.quotas (sumUsage (usages.map (Option.map (·.usage)) ++ [some t.pendingOf]))
      change.request = []) : t.CheckOk (.within change) := by
  refine ⟨hc.1, fun k n hn => ?_⟩
  have hasked := asked_le_request change k
  have htotal := h.total k n hn
  by_cases hzero : change.request k = 0
  · omega
  · have hused := total_le_used h.ids hc.2 hcounted k
    have hle := le_of_exceeds_nil hroom hn hzero
    omega

theorem Sound.created (h : t.Sound) {row : K8sRow} (hc : t.CheckOk (.within (.create row)))
    (hnew : row.id ∉ t.used) : (t.created row).Sound := by
  have hids : (t.created row).rows.map (·.id) = t.rows.map (·.id) ++ [row.id] := by
    unfold TenantClusters.created
    rw [map_append]
    rfl
  have haccounts : ∀ read, t.Accounts read → (t.created row).Accounts read := by
    intro read hread x hx
    obtain ⟨hsum, hparts⟩ := hread x hx
    have hzero : ∀ k, x.parts row.id k = 0 := by
      intro k
      by_contra hne
      exact hnew (hparts row.id k hne)
    refine ⟨fun k => ?_, fun id k hne => mem_cons_of_mem _ (hparts id k hne)⟩
    show ((t.rows ++ [{ row with status := .creating }]).map fun r : K8sRow => x.parts r.id k).sum ≤
      x.usage k
    rw [map_append, sum_append, map_singleton, sum_singleton]
    have hsum := hsum k
    have hzero : x.parts ({ row with status := .creating } : K8sRow).id k = 0 := hzero k
    omega
  refine ⟨?_, fun r hr => ?_, fun p hp => ?_, fun p hp => haccounts _ (h.passes p hp), trivial,
    fun k n hn => ?_⟩
  · rw [hids]
    refine nodup_append.mpr ⟨h.ids, nodup_singleton _, ?_⟩
    intro id hid x hx
    obtain ⟨r, hr, rfl⟩ := List.mem_map.mp hid
    rw [mem_singleton.mp hx]
    intro heq
    exact hnew (heq ▸ h.used r hr)
  · rcases mem_append.mp hr with hr | hr
    · exact mem_cons_of_mem _ (h.used r hr)
    · rw [mem_singleton.mp hr]
      exact mem_cons_self
  · refine haccounts _ ?_
    replace hp : p ∈ if t.placements.any (·.clusterId = row.clusterId) then t.placements
      else t.placements ++ [⟨row.clusterId, none⟩] := hp
    split_ifs at hp
    · exact h.placements p hp
    · rcases mem_append.mp hp with hp | hp
      · exact h.placements p hp
      · rw [mem_singleton.mp hp]
        exact fun _ hx => (nomatch hx)
  · have hroom : t.total k + row.usage k ≤ n := hc.2 k n hn
    show ((t.rows ++ [{ row with status := .creating }]).map fun r : K8sRow => r.usage k).sum ≤ n
    rw [map_append, sum_append, map_singleton, sum_singleton]
    exact hroom

theorem Sound.scaled (h : t.Sound) {cur : K8sRow} {body : PatchBody}
    (hc : t.CheckOk (.within (.scale cur body))) : (t.scaled cur body).Sound := by
  have hids : (t.scaled cur body).rows.map (·.id) = t.rows.map (·.id) := by
    exact ids_updateRow fun _ => rfl
  have haccounts : ∀ read, t.Accounts read → (t.scaled cur body).Accounts read := by
    intro read hread x hx
    obtain ⟨hsum, hparts⟩ := hread x hx
    refine ⟨fun k => ?_, hparts⟩
    have hsame : ((t.scaled cur body).rows.map fun r => x.parts r.id k) =
        t.rows.map fun r => x.parts r.id k := by
      have hmap := congrArg (List.map fun id => x.parts id k) hids
      rw [map_map, map_map] at hmap
      exact hmap
    rw [hsame]
    exact hsum k
  refine ⟨hids ▸ h.ids, fun r hr => ?_, fun p hp => haccounts _ (h.placements p hp),
    fun p hp => haccounts _ (h.passes p hp), trivial, fun k n hn => ?_⟩
  · obtain ⟨r', hr', rfl⟩ := List.mem_map.mp hr
    have hused := h.used r' hr'
    show (if r'.id = cur.id then _ else r' : K8sRow).id ∈ t.used
    split_ifs
    · exact hused
    · exact hused
  · have hroom := hc.2 k n hn
    have hgrown : (t.scaled cur body).total k ≤ t.total k + (Change.scale cur body).asked k := by
      show ((t.rows.map fun r => if r.id = cur.id then _ else r).map fun r : K8sRow => r.usage k).sum ≤ _
      rw [map_map]
      refine sum_map_le_add h.ids (x := cur.id) (fun r _ hne => ?_) fun r hr hid => ?_
      · show (if r.id = cur.id then _ else r : K8sRow).usage k ≤ r.usage k
        rw [if_neg hne]
      · show (if r.id = cur.id then _ else r : K8sRow).usage k ≤ _
        rw [if_pos hid]
        obtain ⟨hspec, hcps, hworkers⟩ := hc.1.1 r hr hid
        have hbound := hc.1.2 k
        unfold K8sRow.usage at hbound ⊢
        rw [hspec, hcps, hworkers]
        exact hbound
    omega

theorem Sound.readRow (h : t.Sound) (hok : t.counted .readRow) (hs : t.step .readRow = some t') :
    t'.Sound := by
  unfold TenantClusters.step at hs
  unfold counted at hok
  dsimp only at hs hok
  cases hc : t.check with
  | patching id body =>
    rw [hc] at hs hok
    dsimp only at hs hok
    cases hrow : t.row id with
    | none =>
      rw [hrow] at hs
      obtain rfl := some.inj hs
      exact h.setCheck trivial
    | some cur =>
      rw [hrow] at hs hok
      dsimp only at hs hok
      have hmem : cur ∈ t.rows := mem_of_find?_eq_some hrow
      have hchange : t.ChangeOk (.scale cur body) := by
        refine ⟨fun r hr hid => ?_, hok⟩
        rw [inj_on_of_nodup_map h.ids hr hmem hid]
        exact ⟨rfl, rfl, rfl⟩
      split at hs
      · obtain rfl := some.inj hs
        exact h.setCheck trivial
      · split_ifs at hs with hgrow
        · obtain rfl := some.inj hs
          exact h.setCheck hchange
        · -- No node is added, and no room is asked for.
          obtain rfl := some.inj hs
          refine h.setCheck ⟨hchange, fun k n hn => ?_⟩
          have hnone : (Change.scale cur body).asked k = 0 := if_neg hgrow
          rw [hnone]
          exact h.total k n hn
  | _ =>
    rw [hc] at hs
    cases hs

theorem Sound.readsUsages (h : t.Sound) (hs : t.step .readUsages = some t') : t'.Sound := by
  have hcheck := h.check
  unfold TenantClusters.step at hs
  cases hc : t.check with
  | locked change =>
    rw [hc] at hs hcheck
    obtain rfl := some.inj hs
    refine h.setCheck ⟨hcheck, fun u hu => ?_⟩
    obtain ⟨p, hp, rfl⟩ := List.mem_map.mp hu
    exact h.placements p hp
  | _ =>
    rw [hc] at hs
    cases hs

theorem Sound.readsPending (h : t.Sound) (hok : t.counted .readPending)
    (hs : t.step .readPending = some t') : t'.Sound := by
  have hcheck := h.check
  unfold TenantClusters.step at hs
  unfold counted at hok
  dsimp only at hs hok
  cases hc : t.check with
  | summed change usages =>
    rw [hc] at hs hok hcheck
    dsimp only at hs hok
    split_ifs at hs with hroom
    · obtain rfl := some.inj hs
      exact h.setCheck (h.within hcheck hok hroom)
    · obtain rfl := some.inj hs
      exact h.setCheck trivial
  | _ =>
    rw [hc] at hs
    cases hs

theorem Sound.commits (h : t.Sound) (hs : t.step .commit = some t') : t'.Sound := by
  have hcheck := h.check
  unfold TenantClusters.step at hs
  cases hc : t.check with
  | within change =>
    rw [hc] at hs hcheck
    cases change with
    | create row =>
      dsimp only at hs
      split_ifs at hs with hnew
      obtain rfl := some.inj hs
      exact h.created hcheck hnew
    | scale cur body =>
      obtain rfl := some.inj hs
      exact h.scaled hcheck
  | _ =>
    rw [hc] at hs
    cases hs

theorem Sound.step {a : QuotaAction} (h : t.Sound) (hok : t.counted a) (hs : t.step a = some t') :
    t'.Sound := by
  have hcheck := h.check
  cases a with
  | post row =>
    unfold TenantClusters.step at hs
    dsimp only at hs
    split at hs
    · obtain rfl := some.inj hs
      exact h.setCheck trivial
    · cases hs
  | patch id body =>
    unfold TenantClusters.step at hs
    dsimp only at hs
    split at hs
    · obtain rfl := some.inj hs
      exact h.setCheck trivial
    · cases hs
  | readRow => exact h.readRow hok hs
  | readUsages => exact h.readsUsages hs
  | readPending => exact h.readsPending hok hs
  | commit => exact h.commits hs
  | abandon =>
    obtain rfl := some.inj hs
    exact h.setCheck trivial
  | start j =>
    unfold TenantClusters.step at hs
    dsimp only at hs
    split at hs
    · split_ifs at hs
      obtain rfl := some.inj hs
      exact h.lessens (.of_rows rfl rfl rfl) h.placements h.passes hcheck
    · cases hs
  | finish j succeeds =>
    unfold TenantClusters.step at hs
    dsimp only at hs
    split at hs
    · split at hs
      · obtain rfl := some.inj hs
        exact h.lessens (.of_rows rfl rfl rfl) h.placements h.passes hcheck
      · cases hs
    · cases hs
  | setStatus id status =>
    obtain rfl := some.inj hs
    exact h.lessens lessens_setStatus h.placements h.passes hcheck
  | remove id =>
    obtain rfl := some.inj hs
    exact h.lessens lessens_remove h.placements h.passes hcheck
  | setNodes id usage =>
    obtain rfl := some.inj hs
    exact h.lessens (.of_rows rfl rfl rfl) h.placements h.passes hcheck
  | passRead cluster there =>
    obtain rfl := some.inj hs
    refine h.lessens (.of_rows rfl rfl rfl) h.placements (fun p hp => ?_) hcheck
    rcases mem_append.mp hp with hp | hp
    · exact h.passes p hp
    · rw [mem_singleton.mp hp]
      cases there
      · exact fun _ hx => (nomatch hx)
      · exact h.accounts_projectUsage cluster
  | passStore p =>
    obtain ⟨pass, hpass, rfl⟩ := map_eq_some_iff.mp hs
    have hmem : pass ∈ t.passes := mem_of_getElem? hpass
    refine h.lessens (.of_rows rfl rfl rfl) (fun x hx => ?_)
      (fun x hx => h.passes x (mem_of_mem_eraseIdx hx)) hcheck
    obtain ⟨y, hy, rfl⟩ := List.mem_map.mp hx
    split_ifs
    · exact h.passes pass hmem
    · exact h.placements y hy

theorem step_quotas {a : QuotaAction} (hs : t.step a = some t') : t'.quotas = t.quotas := by
  cases a with
  | passStore p =>
    obtain ⟨pass, -, rfl⟩ := map_eq_some_iff.mp hs
    rfl
  | _ =>
    unfold TenantClusters.step at hs
    dsimp only at hs
    repeat' split at hs
    all_goals cases hs
    all_goals rfl

/-! ### Runs -/

theorem sound_fresh (quotas : Quotas) (clusters : List String) : (fresh quotas clusters).Sound := by
  refine ⟨nodup_nil, fun _ hr => (nomatch hr), fun p hp => ?_, fun _ hp => (nomatch hp), trivial,
    fun k n _ => Nat.zero_le n⟩
  obtain ⟨c, -, rfl⟩ := List.mem_map.mp hp
  exact fun _ hx => (nomatch hx)

/-- In every run in which each cluster is counted in full where what there is is added up, and no
`PATCH` grows a cluster by more than it asks room for, the tenant's workload clusters stay within
its quota. -/
theorem clusters_within_quota {quotas : Quotas} {clusters : List String} {t : TenantClusters}
    (h : Run TenantClusters.step counted (fresh quotas clusters) t) :
    ∀ k n, quotaBytes quotas k = some n → (t.rows.map fun r => r.usage k).sum ≤ n := by
  have hsound : t.Sound ∧ t.quotas = quotas := by
    refine h.invariant (I := fun t => t.Sound ∧ t.quotas = quotas) ⟨sound_fresh quotas clusters, rfl⟩ ?_
    intro t a t' hsound hok hs
    exact ⟨hsound.1.step hok hs, (step_quotas hs).trans hsound.2⟩
  intro k n hn
  rw [← hsound.2] at hn
  exact hsound.1.total k n hn

/-! ### A cluster that is scaled twice -/

def fourInstances : Quotas := fun
  | .instances => some 4
  | _ => none

def oneNode : K8sRow :=
  { id := "k1", tenantId := "acme", clusterId := "lab", name := "demo", version := "v1.34.0"
    controlPlanes := 1, workers := 0, spec := ⟨"c2-m2", "c2-m2", .address "192.0.2.7", none⟩
    endpointHost := "192.0.2.7", endpointPort := 6443, lbMember := "", status := .creating
    statusMessage := "", nodes := 0, nodesReady := 0 }

def createdAndRead : List QuotaAction :=
  [.post oneNode, .readUsages, .readPending, .commit, .start 0, .setNodes "k1" oneNode.usage,
    .setStatus "k1" .ready, .finish 0 true, .passRead "lab" true, .passStore 0]

def scaleTo (workers : ℕ) : List QuotaAction :=
  [.patch "k1" ⟨none, none, some workers⟩, .readRow, .readUsages, .readPending, .commit]

/-- It is scaled up to the quota. -/
theorem clusters_within_quota_scaled :
    ∃ t, Run TenantClusters.step counted (fresh fourInstances ["lab"]) t ∧
      t.total .instances = 4 ∧ ∀ k n, quotaBytes fourInstances k = some n →
        (t.rows.map fun r => r.usage k).sum ≤ n := by
  have hrun : ∃ t, Run TenantClusters.step counted (fresh fourInstances ["lab"]) t ∧
      t.total .instances = 4 := by
    refine Run.exists_of_exec (createdAndRead ++ scaleTo 3) ?_
    decide +kernel
  obtain ⟨t, ht, htotal⟩ := hrun
  exact ⟨t, ht, htotal, clusters_within_quota ht⟩

/-- Scaled again before a pass has read the nodes that were added, it has seven instances where four
are allowed. -/
theorem scaled_twice_exceeds :
    ¬ ∀ t, Run TenantClusters.step (fun _ _ => True) (fresh fourInstances ["lab"]) t →
      ∀ k n, quotaBytes fourInstances k = some n → (t.rows.map fun r => r.usage k).sum ≤ n := by
  intro h
  have hrun : ∃ t, Run TenantClusters.step (fun _ _ => True) (fresh fourInstances ["lab"]) t ∧
      t.total .instances = 7 := by
    refine Run.exists_of_exec (createdAndRead ++ scaleTo 3 ++ scaleTo 6) ?_
    decide
  obtain ⟨t, ht, htotal⟩ := hrun
  have hle : t.total .instances ≤ 4 := h t ht .instances 4 rfl
  omega

end TenantClusters

end IncusCloud.Kubernetes
