import IncusCloud.Kubernetes.Proofs.Deleting

/-!
# CAPN's certificates

The certificate that a tenant's workload clusters on one Incus cluster share, in any interleaving of
their create and delete jobs. The lock is held while a certificate is issued and while a delete
looks for others and revokes; the row goes later, and the namespace after that. As long as the
deletes of the last rows do not look at each other, a certificate is trusted only while there is a
row; and as long as no row comes between a delete's look for the tenant's rows and its removal of
the namespace, the secret of a row whose delete has not looked yet holds a certificate that is
trusted.

`PairSettled` is what holds of a tenant on an Incus cluster while nobody holds their lock.
-/

namespace IncusCloud.Kubernetes

open Lib List Option
open Management (setAt)
open Mobility (JobError)

variable {i : K8sProc} {w w' : Management} {o : K8sOutcome} {id t k : String}

/-! ### What holds -/

def Management.keys (w : Management) : List (String × String × String) :=
  w.rows.map fun r => (r.id, r.tenantId, r.clusterId)

/-- The row is there, and its delete job has not looked for others. -/
structure Open (id t k : String) (w : Management) : Prop where
  there : (id, t, k) ∈ w.keys
  unchecked : w.checked id = false

/-- What holds of a tenant's credentials on a cluster while nobody has their lock. -/
structure PairSettled (t k : String) (w : Management) : Prop where
  recorded : ∀ fp, ⟨k, t, fp⟩ ∈ w.trusted → w.credentials t k = some fp
  trusted : ∀ fp, w.credentials t k = some fp → ⟨k, t, fp⟩ ∈ w.trusted
  secret : ∀ fp, w.secrets t k = some fp → w.credentials t k = some fp
  needed : w.credentials t k ≠ none → ∃ id, Open id t k w

/-- Ids are told apart, and no row has two deletes. -/
structure JobsInv (w : Management) : Prop where
  jobIds : ∀ j ∈ w.jobs, ∀ j' ∈ w.jobs, j.id = j'.id → j = j'
  jobRows : ∀ j ∈ w.jobs, ∀ key ∈ w.keys, key.1 = j.k8sId → key.2 = (j.tenantId, j.clusterId)
  rowIds : ∀ key ∈ w.keys, ∀ key' ∈ w.keys, key.1 = key'.1 → key = key'
  keys_used : ∀ key ∈ w.keys, key.1 ∈ w.used
  jobs_used : ∀ j ∈ w.jobs, j.k8sId ∈ w.used
  checked_used : ∀ id, w.checked id = true → id ∈ w.used
  creating : ∀ j ∈ w.jobs, j.type = .create → j.active → Open j.k8sId j.tenantId j.clusterId w
  deleteOnce : ∀ j ∈ w.jobs, ∀ j' ∈ w.jobs, j.type = .delete → j'.type = .delete → j.active →
    j'.active → j.k8sId = j'.k8sId → j.id = j'.id
  looked : ∀ t, w.looked t ≠ [] → ∀ key ∈ w.keys, key.2.1 ≠ t

/-- What is trusted, with the lock held or free. -/
structure CertInv (w : Management) : Prop where
  past_used : ∀ id, w.past id = true → id ∈ w.used
  fresh : ∀ c ∈ w.trusted, c.fingerprint < w.generated
  unique : ∀ c ∈ w.trusted, ∀ c' ∈ w.trusted, c.fingerprint = c'.fingerprint → c = c'
  settled : ∀ t k, w.holder t k = none → PairSettled t k w
  secret : ∀ t k id, Open id t k w → w.past id = true →
    ∃ fp, w.secrets t k = some fp ∧ ⟨k, t, fp⟩ ∈ w.trusted
  held : ∀ t k i, w.holder t k = some i →
    ∃ j ∈ w.jobs, .job j.id = i ∧ j.tenantId = t ∧ j.clusterId = k ∧ j.state = .running

def Runs (i : K8sProc) (type : K8sJobType) (id t k : String) (w : Management) : Prop :=
  ∃ j ∈ w.jobs, .job j.id = i ∧ j.type = type ∧ j.k8sId = id ∧ j.tenantId = t ∧ j.clusterId = k ∧
    j.state = .running

def NoCreate (id : String) (w : Management) : Prop :=
  ∀ j ∈ w.jobs, j.type = .create → j.k8sId = id → j.active = false

/-! ### What the programs do to each other -/

/-- What is done to a tenant's credentials on an Incus cluster by who does not hold their lock. -/
structure PairKept (t k : String) (w w' : Management) : Prop where
  credentials : w'.credentials t k = w.credentials t k
  trusted : ∀ fp, ⟨k, t, fp⟩ ∈ w'.trusted ↔ ⟨k, t, fp⟩ ∈ w.trusted
  secrets : w'.secrets t k = w.secrets t k ∨ w'.secrets t k = none ∧ ∀ key ∈ w.keys, key.2.1 ≠ t
  opened : ∀ id, Open id t k w → Open id t k w'
  past : ∀ id, Open id t k w' → w'.past id = true → Open id t k w ∧ w.past id = true

/-- What a step leaves of the others' jobs and rows. -/
structure JobsGuar (i : K8sProc) (w w' : Management) : Prop where
  jobs : ∀ j ∈ w.jobs, .job j.id ≠ i → j.state = .running → ∃ j' ∈ w'.jobs, j'.id = j.id ∧
    j'.type = j.type ∧ j'.k8sId = j.k8sId ∧ j'.tenantId = j.tenantId ∧ j'.clusterId = j.clusterId ∧
    j'.state = .running
  creates : ∀ id ∈ w.used, NoCreate id w → NoCreate id w'
  used : ∀ id ∈ w.used, id ∈ w'.used
  keys : ∀ key ∈ w'.keys, key ∈ w.keys ∨ key.1 ∉ w.used
  rows : ∀ key ∈ w.keys, key ∈ w'.keys ∨ Runs i .delete key.1 key.2.1 key.2.2 w
  checked : ∀ id, w.checked id = true → w'.checked id = true
  namespaces : ∀ t, w.namespaces t = true → w'.namespaces t = true ∨ ∀ key ∈ w.keys, key.2.1 ≠ t
  looked : ∀ t, ∀ j ≠ i, j ∈ w.looked t → j ∈ w'.looked t

/-- And to the credentials: a lock that is free may be taken, and given back. -/
structure CertGuar (i : K8sProc) (w w' : Management) : Prop where
  pairs : ∀ t k, w.holder t k ≠ some i → PairKept t k w w'
  holder : ∀ t k, w'.holder t k = w.holder t k ∨ w.holder t k = none ∧ w'.holder t k = some i ∨
    w.holder t k = some i ∧ w'.holder t k = none

/-- What a job relies on while the others step. -/
structure CredRely (i : K8sProc) (w w' : Management) : Prop where
  pairs : ∀ t k, w.holder t k = some i → PairKept t k w w' ∧ w'.holder t k = some i
  free : ∀ t k, w.holder t k ≠ some i → w'.holder t k ≠ some i
  runs : ∀ type id t k, Runs i type id t k w → Runs i type id t k w'
  creates : ∀ id ∈ w.used, NoCreate id w → NoCreate id w'
  used : ∀ id ∈ w.used, id ∈ w'.used
  keys : ∀ key ∈ w'.keys, key ∈ w.keys ∨ key.1 ∉ w.used
  rows : ∀ type id t k, Runs i type id t k w → (id, t, k) ∈ w.keys → (id, t, k) ∈ w'.keys
  opened : ∀ id t k, Runs i .create id t k w → Open id t k w'
  checked : ∀ id, w.checked id = true → w'.checked id = true
  namespaces : ∀ t, w.namespaces t = true → w'.namespaces t = true ∨ ∀ key ∈ w.keys, key.2.1 ≠ t
  looked : ∀ t, i ∈ w.looked t → i ∈ w'.looked t

/-- A delete that looks for others finds none, or one whose delete has not looked yet. -/
def looksInTurn (_ : K8sProc) (c : K8sCall) (w : Management) : Prop :=
  match c with
  | .selectOthers tenant cluster except =>
    (w.rows.any fun r => r.tenantId = tenant ∧ r.clusterId = cluster ∧ r.id ≠ except) →
      w.rows.any fun r => r.tenantId = tenant ∧ r.clusterId = cluster ∧ r.id ≠ except ∧
        w.checked r.id = false
  | _ => True

instance (i : K8sProc) (c : K8sCall) (w : Management) : Decidable (looksInTurn i c w) := by
  unfold looksInTurn
  split <;> infer_instance

def namespaceStays (x : K8sRow × String) (w : Management) : Prop := w.looked x.1.tenantId = []

instance (x : K8sRow × String) (w : Management) : Decidable (namespaceStays x w) := by
  unfold namespaceStays
  infer_instance

def revoking : Protocol K8sProc K8sCall Management (K8sRow × String) where
  ok := looksInTurn
  okOutside := namespaceStays
  inv w := JobsInv w ∧ CertInv w
  rely := CredRely
  guar i w w' := JobsGuar i w w' ∧ CertGuar i w w'

def unfailing (c : K8sCall) (o : K8sOutcome) : K8sOutcome :=
  match c with
  | .throwIfAborted | .sleep => o
  | _ => { o with fails := false }

/-- The programs, where no call fails and no worker is taken for gone. -/
def steadyManagement :
    Team K8sProc K8sCall K8sCall.Answer JobError Management K8sOutcome (K8sRow × String) :=
  ⟨fun i c w o => answer i c w (unfailing c o), fun w x => w.happen (.post x.1 x.2)⟩

/-! ### Pairs -/

theorem PairSettled.kept (h : PairSettled t k w) (hw : PairKept t k w w') : PairSettled t k w' := by
  refine ⟨fun fp hfp => ?_, fun fp hfp => ?_, fun fp hfp => ?_, fun hne => ?_⟩
  · rw [hw.credentials]
    exact h.recorded fp ((hw.trusted fp).mp hfp)
  · rw [hw.credentials] at hfp
    exact (hw.trusted fp).mpr (h.trusted fp hfp)
  · rw [hw.credentials]
    rcases hw.secrets with hsame | ⟨hnone, -⟩
    · exact h.secret fp (hsame ▸ hfp)
    · rw [hnone] at hfp
      cases hfp
  · rw [hw.credentials] at hne
    obtain ⟨id, hid⟩ := h.needed hne
    exact ⟨id, hw.opened id hid⟩

theorem PairKept.secrets_of_row (hw : PairKept t k w w') {key : String × String × String}
    (hkey : key ∈ w.keys) (htenant : key.2.1 = t) : w'.secrets t k = w.secrets t k := by
  rcases hw.secrets with hsame | ⟨-, hnone⟩
  · exact hsame
  · exact absurd htenant (hnone key hkey)

theorem setAt_self {α : Type} (f : String → String → α) (t k : String) (a : α) : setAt f t k a t k = a := by
  unfold setAt
  rw [Function.update_self, Function.update_self]

theorem setAt_ne {α : Type} (f : String → String → α) {t k t' k' : String} (a : α)
    (h : (t', k') ≠ (t, k)) : setAt f t k a t' k' = f t' k' := by
  unfold setAt
  by_cases ht : t' = t
  · have hk : k' ≠ k := fun hk => h (by rw [ht, hk])
    rw [ht, Function.update_self, Function.update_of_ne hk]
  · rw [Function.update_of_ne ht]

/-! ### Programs that leave each other alone -/

theorem Runs.open (h : Runs i .create id t k w) (hinv : JobsInv w) : Open id t k w := by
  obtain ⟨j, hj, -, htype, rfl, rfl, rfl, hstate⟩ := h
  refine hinv.creating j hj htype ?_
  simp [K8sJob.active, hstate]

theorem runs_delete_unique {i' : K8sProc} {t' k' : String} (hinv : JobsInv w)
    (h : Runs i .delete id t k w) (h' : Runs i' .delete id t' k' w) : i = i' := by
  obtain ⟨j, hj, rfl, htype, hid, -, -, hstate⟩ := h
  obtain ⟨j', hj', rfl, htype', hid', -, -, hstate'⟩ := h'
  have hsame := hinv.deleteOnce j hj j' hj' htype htype' (by simp [K8sJob.active, hstate])
    (by simp [K8sJob.active, hstate']) (hid.trans hid'.symm)
  rw [hsame]

theorem rely_of_guar {i j : K8sProc} (hij : i ≠ j) (hinv : JobsInv w) (hinv' : JobsInv w')
    (hjobs : JobsGuar i w w') (hcert : CertGuar i w w') : CredRely j w w' := by
  have hruns : ∀ type id t k, Runs j type id t k w → Runs j type id t k w' := by
    rintro type id t k ⟨x, hx, rfl, rfl, rfl, rfl, rfl, hstate⟩
    obtain ⟨x', hx', hid, htype, hrow, htenant, hcluster, hstate'⟩ :=
      hjobs.jobs x hx (Ne.symm hij) hstate
    exact ⟨x', hx', by rw [hid], htype, hrow, htenant, hcluster, hstate'⟩
  refine ⟨fun t k hheld => ?_, fun t k hfree hheld => ?_, hruns, hjobs.creates, hjobs.used, hjobs.keys,
    fun type id t k hrun hkey => ?_, fun id t k hrun => (hruns _ _ _ _ hrun).open hinv', hjobs.checked,
    hjobs.namespaces, fun t => hjobs.looked t j (Ne.symm hij)⟩
  · have hnot : w.holder t k ≠ some i := by
      rw [hheld]
      exact fun heq => hij (some.inj heq).symm
    refine ⟨hcert.pairs t k hnot, ?_⟩
    rcases hcert.holder t k with hsame | ⟨hnone, -⟩ | ⟨hmine, -⟩
    · rw [hsame]
      exact hheld
    · rw [hnone] at hheld
      cases hheld
    · exact absurd hmine hnot
  · rcases hcert.holder t k with hsame | ⟨-, hmine⟩ | ⟨-, hnone⟩
    · rw [hsame] at hheld
      exact hfree hheld
    · rw [hmine] at hheld
      exact hij (some.inj hheld)
    · rw [hnone] at hheld
      cases hheld
  · cases type with
    | create => exact ((hruns _ _ _ _ hrun).open hinv').there
    | delete =>
      rcases hjobs.rows _ hkey with hthere | hmine
      · exact hthere
      · exact absurd (runs_delete_unique hinv hmine hrun) hij

theorem CertInv.kept (h : CertInv w) (hpairs : ∀ t k, PairKept t k w w')
    (hholder : w'.holder = w.holder) (htrusted : w'.trusted = w.trusted)
    (hgenerated : w'.generated = w.generated) (hpast : w'.past = w.past)
    (hused : ∀ id ∈ w.used, id ∈ w'.used)
    (hheld : ∀ t k i, w.holder t k = some i →
      ∃ j ∈ w'.jobs, .job j.id = i ∧ j.tenantId = t ∧ j.clusterId = k ∧ j.state = .running) : CertInv w' := by
  refine ⟨fun id hid => ?_, ?_, ?_, fun t k hfree => ?_, fun t k id hopen hid => ?_, fun t k i hi => ?_⟩
  · rw [hpast] at hid
    exact hused id (h.past_used id hid)
  · rw [htrusted, hgenerated]
    exact h.fresh
  · rw [htrusted]
    exact h.unique
  · rw [hholder] at hfree
    exact (h.settled t k hfree).kept (hpairs t k)
  · obtain ⟨hwas, hpast'⟩ := (hpairs t k).past id hopen hid
    obtain ⟨fp, hsecret, hfp⟩ := h.secret t k id hwas hpast'
    refine ⟨fp, ?_, ((hpairs t k).trusted fp).mpr hfp⟩
    rw [(hpairs t k).secrets_of_row hwas.there rfl]
    exact hsecret
  · rw [hholder] at hi
    exact hheld t k i hi

theorem CertGuar.of_pairs (hpairs : ∀ t k, PairKept t k w w') (hholder : w'.holder = w.holder) :
    CertGuar i w w' :=
  ⟨fun t k _ => hpairs t k, fun t k => .inl (by rw [hholder])⟩

theorem mem_keys_posted {row : K8sRow} {job : String} {key : String × String × String} :
    key ∈ (w.posted row job).keys ↔ key ∈ w.keys ∨ key = (row.id, row.tenantId, row.clusterId) := by
  unfold Management.keys Management.posted
  rw [map_append, mem_append, map_singleton, mem_singleton]

theorem not_mem_used_of_happen {row : K8sRow} {job : String} (h : w.happen (.post row job) = some w') :
    row.id ∉ w.used ∧ (∀ j ∈ w.jobs, j.id ≠ job) ∧ w' = w.posted row job := by
  replace h : (if row.id ∈ w.used ∨ w.jobs.any fun j => j.id = job then none
    else some (w.posted row job)) = some w' := h
  split_ifs at h with hnew
  refine ⟨fun hused => hnew (.inl hused), fun j hj hid => hnew (.inr ?_), (some.inj h).symm⟩
  exact any_eq_true.mpr ⟨j, hj, decide_eq_true hid⟩

section Post

variable {row : K8sRow} {job : String} (hused : row.id ∉ w.used)
include hused

theorem pairKept_posted (hcert : CertInv w) (t k : String) : PairKept t k w (w.posted row job) := by
  refine ⟨rfl, fun _ => Iff.rfl, .inl rfl, fun id hopen => ?_, fun id hopen hpast => ⟨?_, hpast⟩⟩
  · exact ⟨mem_keys_posted.mpr (.inl hopen.there), hopen.unchecked⟩
  · refine ⟨?_, hopen.unchecked⟩
    rcases mem_keys_posted.mp hopen.there with hkey | hkey
    · exact hkey
    · rw [(Prod.mk.inj hkey).1] at hpast
      exact absurd (hcert.past_used row.id hpast) hused

theorem jobsInv_posted (hinv : JobsInv w) (hjob : ∀ j ∈ w.jobs, j.id ≠ job)
    (hlooked : w.looked row.tenantId = []) : JobsInv (w.posted row job) := by
  have hjobs : ∀ j ∈ (w.posted row job).jobs, j ∈ w.jobs ∨
      j = ⟨job, .create, row.tenantId, row.clusterId, row.id, .queued, false⟩ := by
    intro j hj
    rcases mem_append.mp hj with hj | hj
    · exact .inl hj
    · exact .inr (mem_singleton.mp hj)
  have hopen : ∀ id t k, Open id t k w → Open id t k (w.posted row job) := by
    intro id t k h
    exact ⟨mem_keys_posted.mpr (.inl h.there), h.unchecked⟩
  refine ⟨fun j hj j' hj' hid => ?_, fun j hj key hkey hid => ?_, fun key hkey key' hkey' hid => ?_,
    fun key hkey => ?_, fun j hj => ?_, fun id hid => ?_, fun j hj htype hactive => ?_,
    fun j hj j' hj' htype htype' hactive hactive' hid => ?_, fun t ht key hkey => ?_⟩
  · rcases hjobs j hj with hj | rfl <;> rcases hjobs j' hj' with hj' | rfl
    · exact hinv.jobIds j hj j' hj' hid
    · exact absurd hid (hjob j hj)
    · exact absurd hid.symm (hjob j' hj')
    · rfl
  · rcases hjobs j hj with hj | rfl <;> rcases mem_keys_posted.mp hkey with hkey | rfl
    · exact hinv.jobRows j hj key hkey hid
    · exact absurd (hinv.jobs_used j hj) (hid ▸ hused)
    · exact absurd (hinv.keys_used key hkey) (hid ▸ hused)
    · rfl
  · rcases mem_keys_posted.mp hkey with hkey | rfl <;> rcases mem_keys_posted.mp hkey' with hkey' | rfl
    · exact hinv.rowIds key hkey key' hkey' hid
    · exact absurd (hinv.keys_used key hkey) (hid ▸ hused)
    · exact absurd (hinv.keys_used key' hkey') (hid ▸ hused)
    · rfl
  · rcases mem_keys_posted.mp hkey with hkey | rfl
    · exact mem_cons_of_mem _ (hinv.keys_used key hkey)
    · exact mem_cons_self
  · rcases hjobs j hj with hj | rfl
    · exact mem_cons_of_mem _ (hinv.jobs_used j hj)
    · exact mem_cons_self
  · exact mem_cons_of_mem _ (hinv.checked_used id hid)
  · rcases hjobs j hj with hj | rfl
    · exact hopen _ _ _ (hinv.creating j hj htype hactive)
    · refine ⟨mem_keys_posted.mpr (.inr rfl), ?_⟩
      have hnew : w.checked row.id ≠ true := fun hchecked => hused (hinv.checked_used row.id hchecked)
      exact Bool.eq_false_iff.mpr hnew
  · rcases hjobs j hj with hj | rfl
    · rcases hjobs j' hj' with hj' | rfl
      · exact hinv.deleteOnce j hj j' hj' htype htype' hactive hactive' hid
      · cases htype'
    · cases htype
  · rcases mem_keys_posted.mp hkey with hkey | rfl
    · exact hinv.looked t ht key hkey
    · intro heq
      exact ht (heq ▸ hlooked)

end Post

theorem compatible_revoking : Team.Compatible steadyManagement revoking := by
  constructor
  · rintro i j w w' hij hinv hinv' hguar
    exact rely_of_guar hij hinv.1 hinv'.1 hguar.1 hguar.2
  · rintro ⟨row, job⟩ w w' ⟨hinv, hcert⟩ hok hw'
    obtain ⟨hused, hjob, rfl⟩ := not_mem_used_of_happen hw'
    have hpairs : ∀ t k, PairKept t k w (w.posted row job) := pairKept_posted hused hcert
    have hinv' := jobsInv_posted hused hinv hjob hok
    have hmem : ∀ j ∈ w.jobs, j ∈ (w.posted row job).jobs := fun j hj => mem_append_left _ hj
    refine ⟨⟨hinv', ?_⟩, fun j => ?_⟩
    · refine hcert.kept hpairs rfl rfl rfl rfl (fun id hid => mem_cons_of_mem _ hid) ?_
      intro t k i hi
      obtain ⟨j, hj, hrest⟩ := hcert.held t k i hi
      exact ⟨j, hmem j hj, hrest⟩
    · have hruns : ∀ type id t k, Runs j type id t k w → Runs j type id t k (w.posted row job) := by
        rintro type id t k ⟨x, hx, hrest⟩
        exact ⟨x, hmem x hx, hrest⟩
      refine ⟨fun t k hheld => ⟨hpairs t k, hheld⟩, fun t k hfree => hfree, hruns, ?_,
        fun id hid => mem_cons_of_mem _ hid, fun key hkey => ?_,
        fun type id t k _ hkey => mem_keys_posted.mpr (.inl hkey),
        fun id t k hrun => (hruns _ _ _ _ hrun).open hinv', fun _ h => h, fun t h => .inl h, fun t h => h⟩
      · intro id hid hnone x hx htype hrow
        rcases mem_append.mp hx with hx | hx
        · exact hnone x hx htype hrow
        · rw [mem_singleton.mp hx] at hrow
          exact absurd hid (hrow ▸ hused)
      · rcases mem_keys_posted.mp hkey with hkey | rfl
        · exact .inl hkey
        · exact .inr hused

end IncusCloud.Kubernetes
