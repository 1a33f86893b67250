import IncusCloud.Kubernetes.Proofs.Credentials

/-!
# What one call does to the credentials

Each call that changes something, under what a program knows when it makes it: the invariant is
kept, and the others are left what they rely on (`Fits`). A job that ends holds no lock; a row goes
once its delete has looked for others; a lock is given back on what is settled.
-/

namespace IncusCloud.Kubernetes

open Lib List
open Function (update update_of_ne update_self)
open Management (setAt)
open Mobility (JobError)
open Prod (mk.inj)

variable {i : K8sProc} {w w' : Management} {o : K8sOutcome} {id t k : String}

/-! ### Calls that leave the rows or the credentials alone -/

structure SameRows (w w' : Management) : Prop where
  keys : w'.keys = w.keys
  jobs : w'.jobs = w.jobs
  used : w'.used = w.used
  checked : w'.checked = w.checked
  looked : w'.looked = w.looked
  namespaces : ∀ t, w.namespaces t = true → w'.namespaces t = true

structure SameCerts (w w' : Management) : Prop where
  credentials : w'.credentials = w.credentials
  holder : w'.holder = w.holder
  trusted : w'.trusted = w.trusted
  generated : w'.generated = w.generated
  secrets : w'.secrets = w.secrets
  past : w'.past = w.past

def Same (w w' : Management) : Prop := SameRows w w' ∧ SameCerts w w'

theorem Same.refl (w : Management) : Same w w :=
  ⟨⟨rfl, rfl, rfl, rfl, rfl, fun _ h => h⟩, ⟨rfl, rfl, rfl, rfl, rfl, rfl⟩⟩

theorem SameRows.open_iff (h : SameRows w w') : Open id t k w' ↔ Open id t k w := by
  constructor
  · rintro ⟨hthere, hunchecked⟩
    rw [h.keys] at hthere
    rw [h.checked] at hunchecked
    exact ⟨hthere, hunchecked⟩
  · rintro ⟨hthere, hunchecked⟩
    rw [← h.keys] at hthere
    rw [← h.checked] at hunchecked
    exact ⟨hthere, hunchecked⟩

theorem SameRows.runs {type : K8sJobType} (h : SameRows w w') (hruns : Runs i type id t k w) :
    Runs i type id t k w' := by
  unfold Runs
  rw [h.jobs]
  exact hruns

theorem SameRows.noCreate (h : SameRows w w') (hnone : NoCreate id w) : NoCreate id w' := by
  unfold NoCreate
  rw [h.jobs]
  exact hnone

theorem SameRows.inv (h : SameRows w w') (hinv : JobsInv w) : JobsInv w' := by
  refine ⟨?_, ?_, ?_, ?_, ?_, ?_, fun j hj htype hactive => ?_, ?_, ?_⟩
  · rw [h.jobs]
    exact hinv.jobIds
  · rw [h.jobs, h.keys]
    exact hinv.jobRows
  · rw [h.keys]
    exact hinv.rowIds
  · rw [h.keys, h.used]
    exact hinv.keys_used
  · rw [h.jobs, h.used]
    exact hinv.jobs_used
  · rw [h.checked, h.used]
    exact hinv.checked_used
  · rw [h.jobs] at hj
    exact h.open_iff.mpr (hinv.creating j hj htype hactive)
  · rw [h.jobs]
    exact hinv.deleteOnce
  · rw [h.looked, h.keys]
    exact hinv.looked

theorem SameRows.guar (h : SameRows w w') (i : K8sProc) : JobsGuar i w w' := by
  refine ⟨fun j hj _ hstate => ?_, fun id _ hnone => h.noCreate hnone, fun id hid => ?_,
    fun key hkey => ?_, fun key hkey => ?_, fun id hid => ?_, fun t ht => .inl (h.namespaces t ht),
    fun t j _ hj => ?_⟩
  · rw [h.jobs]
    exact ⟨j, hj, rfl, rfl, rfl, rfl, rfl, hstate⟩
  · rw [h.used]
    exact hid
  · rw [h.keys] at hkey
    exact .inl hkey
  · rw [h.keys]
    exact .inl hkey
  · rw [h.checked]
    exact hid
  · rw [h.looked]
    exact hj

theorem SameCerts.pairs (h : SameCerts w w') (hopen : ∀ id t k, Open id t k w → Open id t k w')
    (hback : ∀ id t k, Open id t k w' → w.past id = true → Open id t k w) (t k : String) :
    PairKept t k w w' := by
  refine ⟨?_, fun fp => ?_, .inl ?_, fun id => hopen id t k, fun id hid hpast => ?_⟩
  · rw [h.credentials]
  · rw [h.trusted]
  · rw [h.secrets]
  · rw [h.past] at hpast
    exact ⟨hback id t k hid hpast, hpast⟩

theorem SameCerts.inv (h : SameCerts w w') (hcert : CertInv w) (hpairs : ∀ t k, PairKept t k w w')
    (hused : ∀ id ∈ w.used, id ∈ w'.used)
    (hheld : ∀ t k i, w.holder t k = some i →
      ∃ j ∈ w'.jobs, .job j.id = i ∧ j.tenantId = t ∧ j.clusterId = k ∧ j.state = .running) : CertInv w' :=
  hcert.kept hpairs h.holder h.trusted h.generated h.past hused hheld

/-- What the protocol asks of one call, and what the program that made it still knows. -/
structure Fits (i : K8sProc) (w w' : Management) : Prop where
  inv : JobsInv w' ∧ CertInv w'
  guar : JobsGuar i w w' ∧ CertGuar i w w'

theorem Same.fits (h : Same w w') (hinv : JobsInv w ∧ CertInv w) : Fits i w w' ∧ CredRely i w w' := by
  obtain ⟨hrows, hcerts⟩ := h
  have hpairs : ∀ t k, PairKept t k w w' :=
    hcerts.pairs (fun _ _ _ h => hrows.open_iff.mpr h) (fun _ _ _ h _ => hrows.open_iff.mp h)
  have hguar := hrows.guar i
  refine ⟨⟨⟨hrows.inv hinv.1, ?_⟩, hguar, CertGuar.of_pairs hpairs hcerts.holder⟩, ?_⟩
  · refine hcerts.inv hinv.2 hpairs hguar.used ?_
    rw [hrows.jobs]
    exact hinv.2.held
  · refine ⟨fun t k hheld => ⟨hpairs t k, ?_⟩, fun t k hfree => ?_, fun _ _ _ _ h => hrows.runs h,
      hguar.creates, hguar.used, hguar.keys, fun _ _ _ _ _ hkey => ?_,
      fun _ _ _ h => hrows.open_iff.mpr (h.open hinv.1), hguar.checked, hguar.namespaces, fun t h => ?_⟩
    · rw [hcerts.holder]
      exact hheld
    · rw [hcerts.holder]
      exact hfree
    · rw [hrows.keys]
      exact hkey
    · rw [hrows.looked]
      exact h

theorem keys_update {f : K8sRow → K8sRow}
    (hf : ∀ r, ((f r).id, (f r).tenantId, (f r).clusterId) = (r.id, r.tenantId, r.clusterId)) :
    (w.update id f).keys = w.keys := by
  unfold Management.keys Management.update
  rw [map_map]
  refine map_congr_left fun r _ => ?_
  show ((if r.id = id then f r else r).id, (if r.id = id then f r else r).tenantId,
    (if r.id = id then f r else r).clusterId) = _
  split_ifs
  · exact hf r
  · rfl

theorem same_update {f : K8sRow → K8sRow}
    (hf : ∀ r, ((f r).id, (f r).tenantId, (f r).clusterId) = (r.id, r.tenantId, r.clusterId)) :
    Same w (w.update id f) :=
  ⟨⟨keys_update hf, rfl, rfl, rfl, rfl, fun _ h => h⟩, ⟨rfl, rfl, rfl, rfl, rfl, rfl⟩⟩

/-- Calls that leave the jobs, the credentials and which rows there are alone. -/
def K8sCall.isQuiet : K8sCall → Bool
  | applyTenant _ | setStatus _ _ _ | setError _ _ | setDeleting _ | selectSynced | saveSync _ _ _ _
  | patchTx _ _ => true
  | c => c.isIdle

theorem answer_same {c : K8sCall} {r : Except JobError c.Answer × Management} (hc : c.isQuiet)
    (h : answer i c w o = some r) : Same w r.2 := by
  have hrefl := Same.refl w
  have hidle (hidle : c.isIdle) : Same w r.2 := by
    rw [answer_idle hidle h]
    exact hrefl
  cases c with
  | applyTenant tenant =>
    refine reply_some (A := Same w) hrefl ?_ h
    refine ⟨⟨rfl, rfl, rfl, rfl, rfl, fun t ht => ?_⟩, ⟨rfl, rfl, rfl, rfl, rfl, rfl⟩⟩
    show update w.namespaces tenant true t = true
    by_cases heq : t = tenant
    · rw [heq, update_self]
    · rw [update_of_ne heq]
      exact ht
  | selectSynced =>
    refine reply_some (A := Same w) hrefl ?_ h
    exact ⟨⟨rfl, rfl, rfl, rfl, rfl, fun _ h => h⟩, ⟨rfl, rfl, rfl, rfl, rfl, rfl⟩⟩
  | setStatus id status message =>
    refine reply_some (A := Same w) hrefl ?_ h
    exact same_update fun _ => rfl
  | setDeleting id =>
    refine reply_some (A := Same w) hrefl ?_ h
    exact same_update fun _ => rfl
  | saveSync id status nodes ready =>
    refine reply_some (A := Same w) hrefl ?_ h
    exact same_update fun _ => rfl
  | setError id message =>
    refine reply_some (A := Same w) hrefl ?_ h
    refine same_update fun r => ?_
    split_ifs <;> rfl
  | patchTx id body =>
    unfold answer at h
    dsimp only at h
    split at h
    · obtain rfl := Option.some.inj h
      exact hrefl
    · split at h
      · obtain rfl := Option.some.inj h
        exact hrefl
      · refine reply_some (A := Same w) hrefl ?_ h
        exact same_update fun _ => rfl
  | _ => exact hidle hc

theorem maintains_quiet {J : Management → Prop} {c : K8sCall}
    (hJ : ∀ w w', CredRely i w w' → J w → J w') (hc : c.isQuiet) :
    Handler.Maintains steadyManagement revoking i J (Handler.call c : Managing c.Answer) := by
  refine .call hJ fun w o r hw hinv _ hr => ?_
  have hsame : Same w r.2 := answer_same hc hr
  obtain ⟨hfits, hrely⟩ := hsame.fits (i := i) hinv
  exact ⟨hfits.inv, hfits.guar, hJ w r.2 hrely hw⟩

/-! ### Calls that write jobs -/

def K8sJob.of (j : K8sJob) : String × K8sJobType × String × String × String :=
  (j.id, j.type, j.k8sId, j.tenantId, j.clusterId)

theorem K8sJob.of_eq {j j' : K8sJob} (h : j'.of = j.of) : j'.id = j.id ∧ j'.type = j.type ∧
    j'.k8sId = j.k8sId ∧ j'.tenantId = j.tenantId ∧ j'.clusterId = j.clusterId := by
  simpa [K8sJob.of] using h

structure NewDelete (w w' : Management) (x : K8sJob) : Prop where
  type : x.type = .delete
  fresh : ∀ j ∈ w.jobs, j.id ≠ x.id
  used : x.k8sId ∈ w'.used
  row : ∀ key ∈ w.keys, key.1 = x.k8sId → key.2 = (x.tenantId, x.clusterId)
  first : ∀ j ∈ w.jobs, j.type = .delete → j.active → j.k8sId ≠ x.k8sId

/-- Jobs are written, none that had ended goes on, and a delete may be enqueued. -/
structure JobsWritten (i : K8sProc) (g : K8sJob → K8sJob) (new : Option K8sJob)
    (w w' : Management) : Prop where
  jobs : w'.jobs = w.jobs.map g ++ new.toList
  keys : w'.keys = w.keys
  used : ∀ id ∈ w.used, id ∈ w'.used
  checked : w'.checked = w.checked
  looked : w'.looked = w.looked
  namespaces : w'.namespaces = w.namespaces
  of : ∀ j ∈ w.jobs, (g j).of = j.of
  active : ∀ j ∈ w.jobs, (g j).active → j.active
  running : ∀ j ∈ w.jobs, .job j.id ≠ i → j.state = .running → (g j).state = .running
  held : ∀ j ∈ w.jobs, j.state = .running → (∃ t k, w.holder t k = some (.job j.id)) →
    (g j).state = .running
  enqueued : ∀ x ∈ new, NewDelete w w' x

section Jobs

variable {g : K8sJob → K8sJob} {new : Option K8sJob} (h : JobsWritten i g new w w')
include h

theorem JobsWritten.mem {j : K8sJob} (hj : j ∈ w'.jobs) : (∃ j' ∈ w.jobs, j = g j') ∨ j ∈ new := by
  rw [h.jobs] at hj
  rcases mem_append.mp hj with hj | hj
  · obtain ⟨j', hj', rfl⟩ := List.mem_map.mp hj
    exact .inl ⟨j', hj', rfl⟩
  · exact .inr (Option.mem_toList.mp hj)

theorem JobsWritten.mem_map {j : K8sJob} (hj : j ∈ w.jobs) : g j ∈ w'.jobs := by
  rw [h.jobs]
  exact mem_append_left _ (mem_map_of_mem hj)

theorem JobsWritten.open_iff : Open id t k w' ↔ Open id t k w := by
  constructor
  · rintro ⟨hthere, hunchecked⟩
    exact ⟨h.keys ▸ hthere, h.checked ▸ hunchecked⟩
  · rintro ⟨hthere, hunchecked⟩
    exact ⟨h.keys ▸ hthere, h.checked ▸ hunchecked⟩

theorem JobsWritten.jobsInv (hinv : JobsInv w) : JobsInv w' := by
  refine ⟨fun j hj j' hj' hid => ?_, fun j hj key hkey hid => ?_, ?_,
    fun key hkey => ?_, fun j hj => ?_, fun id hid => ?_, fun j hj htype hactive => ?_,
    fun j hj j' hj' htype htype' hactive hactive' hid => ?_, ?_⟩
  · rcases h.mem hj with ⟨x, hx, rfl⟩ | hj <;> rcases h.mem hj' with ⟨x', hx', rfl⟩ | hj'
    · have hof := (K8sJob.of_eq (h.of x hx)).1
      have hof' := (K8sJob.of_eq (h.of x' hx')).1
      rw [hinv.jobIds x hx x' hx' (by rw [← hof, ← hof', hid])]
    · have hof := (K8sJob.of_eq (h.of x hx)).1
      exact absurd (hof.symm.trans hid) ((h.enqueued j' hj').fresh x hx)
    · have hof' := (K8sJob.of_eq (h.of x' hx')).1
      exact absurd (hof'.symm.trans hid.symm) ((h.enqueued j hj).fresh x' hx')
    · exact Option.mem_unique hj hj'
  · rw [h.keys] at hkey
    rcases h.mem hj with ⟨x, hx, rfl⟩ | hj
    · have hof := K8sJob.of_eq (h.of x hx)
      rw [hof.2.2.1] at hid
      rw [hof.2.2.2.1, hof.2.2.2.2]
      exact hinv.jobRows x hx key hkey hid
    · exact (h.enqueued j hj).row key hkey hid
  · rw [h.keys]
    exact hinv.rowIds
  · rw [h.keys] at hkey
    exact h.used _ (hinv.keys_used key hkey)
  · rcases h.mem hj with ⟨x, hx, rfl⟩ | hj
    · rw [(K8sJob.of_eq (h.of x hx)).2.2.1]
      exact h.used _ (hinv.jobs_used x hx)
    · exact (h.enqueued j hj).used
  · rw [h.checked] at hid
    exact h.used _ (hinv.checked_used id hid)
  · rcases h.mem hj with ⟨x, hx, rfl⟩ | hj
    · have hof := K8sJob.of_eq (h.of x hx)
      rw [hof.2.2.1, hof.2.2.2.1, hof.2.2.2.2, h.open_iff]
      exact hinv.creating x hx (hof.2.1.symm.trans htype) (h.active x hx hactive)
    · rw [(h.enqueued j hj).type] at htype
      cases htype
  · rcases h.mem hj with ⟨x, hx, rfl⟩ | hj <;> rcases h.mem hj' with ⟨x', hx', rfl⟩ | hj'
    · have hof := K8sJob.of_eq (h.of x hx)
      have hof' := K8sJob.of_eq (h.of x' hx')
      rw [hof.1, hof'.1]
      exact hinv.deleteOnce x hx x' hx' (hof.2.1.symm.trans htype) (hof'.2.1.symm.trans htype')
        (h.active x hx hactive) (h.active x' hx' hactive') (by rw [← hof.2.2.1, ← hof'.2.2.1, hid])
    · have hof := K8sJob.of_eq (h.of x hx)
      refine absurd ?_ ((h.enqueued j' hj').first x hx (hof.2.1.symm.trans htype) (h.active x hx hactive))
      exact hof.2.2.1.symm.trans hid
    · have hof' := K8sJob.of_eq (h.of x' hx')
      refine absurd ?_
        ((h.enqueued j hj).first x' hx' (hof'.2.1.symm.trans htype') (h.active x' hx' hactive'))
      exact hof'.2.2.1.symm.trans hid.symm
    · rw [Option.mem_unique hj hj']
  · rw [h.looked, h.keys]
    exact hinv.looked

theorem JobsWritten.noCreate (hnone : NoCreate id w) : NoCreate id w' := by
  intro j hj htype hid
  rcases h.mem hj with ⟨x, hx, rfl⟩ | hj
  · have hof := K8sJob.of_eq (h.of x hx)
    have hended := hnone x hx (hof.2.1.symm.trans htype) (hof.2.2.1.symm.trans hid)
    refine Bool.eq_false_iff.mpr fun hactive => ?_
    rw [h.active x hx hactive] at hended
    cases hended
  · rw [(h.enqueued j hj).type] at htype
    cases htype

theorem JobsWritten.guar : JobsGuar i w w' := by
  refine ⟨fun j hj hne hstate => ⟨g j, h.mem_map hj, ?_⟩, fun id _ hnone => h.noCreate hnone, h.used,
    fun key hkey => ?_, fun key hkey => ?_, fun id hid => ?_, fun t ht => ?_, fun t j _ hj => ?_⟩
  · have hof := K8sJob.of_eq (h.of j hj)
    exact ⟨hof.1, hof.2.1, hof.2.2.1, hof.2.2.2.1, hof.2.2.2.2, h.running j hj hne hstate⟩
  · rw [h.keys] at hkey
    exact .inl hkey
  · rw [h.keys]
    exact .inl hkey
  · rw [h.checked]
    exact hid
  · rw [h.namespaces]
    exact .inl ht
  · rw [h.looked]
    exact hj

theorem JobsWritten.fits (hcerts : SameCerts w w') (hinv : JobsInv w ∧ CertInv w) : Fits i w w' := by
  have hpairs : ∀ t k, PairKept t k w w' :=
    hcerts.pairs (fun _ _ _ hopen => h.open_iff.mpr hopen) (fun _ _ _ hopen _ => h.open_iff.mp hopen)
  refine ⟨⟨h.jobsInv hinv.1, hcerts.inv hinv.2 hpairs h.used fun t k i' hi' => ?_⟩, h.guar,
    CertGuar.of_pairs hpairs hcerts.holder⟩
  obtain ⟨j, hj, rfl, htenant, hcluster, hstate⟩ := hinv.2.held t k i' hi'
  have hof := K8sJob.of_eq (h.of j hj)
  exact ⟨g j, h.mem_map hj, by rw [hof.1], hof.2.2.2.1.trans htenant, hof.2.2.2.2.trans hcluster,
    h.held j hj hstate ⟨t, k, hi'⟩⟩

end Jobs

theorem jobsWritten_updateJobs {job : String} {f : K8sJob → K8sJob} {v : Management}
    (hv : v = w.updateJobs (·.id = job) f) (hof : ∀ j, (f j).of = j.of)
    (hactive : ∀ j ∈ w.jobs, j.id = job → (f j).active → j.active)
    (hheld : ∀ j ∈ w.jobs, j.id = job → (∃ t k, w.holder t k = some (.job job)) →
      (f j).state = .running) :
    JobsWritten (.job job) (fun j => if j.id = job then f j else j) none w v := by
  subst hv
  refine ⟨?_, rfl, fun _ h => h, rfl, rfl, rfl, fun j hj => ?_, fun j hj => ?_, fun j hj hne hstate => ?_,
    fun j hj hstate => ?_, fun x hx => (nomatch hx)⟩
  · show (w.updateJobs (fun j => j.id = job) f).jobs = _
    simp [Management.updateJobs]
  · split_ifs
    · exact hof j
    · rfl
  · split_ifs with hid
    · exact hactive j hj hid
    · exact fun h => h
  · rw [if_neg fun hid => hne (by rw [hid])]
    exact hstate
  · rintro ⟨t, k, hholder⟩
    split_ifs with hid
    · exact hheld j hj hid ⟨t, k, hid ▸ hholder⟩
    · exact hstate

def Free (i : K8sProc) (w : Management) : Prop := ∀ t k, w.holder t k ≠ some i

theorem fits_ended {job : String} {f : K8sJob → K8sJob} (hinv : JobsInv w ∧ CertInv w)
    (hfree : Free (.job job) w) (hof : ∀ j, (f j).of = j.of) (hended : ∀ j, (f j).active = false) :
    Fits (.job job) w (w.updateJobs (·.id = job) f) := by
  refine (jobsWritten_updateJobs rfl hof (fun j _ _ hactive => ?_) fun j _ _ hheld => ?_).fits
    ⟨rfl, rfl, rfl, rfl, rfl, rfl⟩ hinv
  · rw [hended j] at hactive
    cases hactive
  · obtain ⟨t, k, hheld⟩ := hheld
    exact absurd hheld (hfree t k)

theorem fits_claimed {job : String} {j : K8sJob} (hinv : JobsInv w ∧ CertInv w) (hj : j ∈ w.jobs)
    (hid : j.id = job) (hqueued : j.state = .queued) :
    Fits (.job job) w
      ((w.updateJobs (·.id = job) fun j => { j with state := .running }).look (.job job)) := by
  have hactive : ∀ j' ∈ w.jobs, j'.id = job → j'.active := by
    intro j' hj' hid'
    rw [hinv.1.jobIds j' hj' j hj (hid'.trans hid.symm)]
    simp [K8sJob.active, hqueued]
  have hwritten : JobsWritten (.job job) (fun j => if j.id = job then { j with state := .running } else j)
      none w (w.updateJobs (·.id = job) fun j => { j with state := .running }) :=
    jobsWritten_updateJobs rfl (fun _ => rfl) (fun j' hj' hid' _ => hactive j' hj' hid')
      fun _ _ _ _ => rfl
  have hlooked : JobsWritten (.job job) (fun j => if j.id = job then { j with state := .running } else j)
      none w ((w.updateJobs (·.id = job) fun j => { j with state := .running }).look (.job job)) :=
    ⟨hwritten.jobs, hwritten.keys, hwritten.used, hwritten.checked, hwritten.looked, hwritten.namespaces,
      hwritten.of, hwritten.active, hwritten.running, hwritten.held, fun x hx => (by cases hx)⟩
  exact hlooked.fits ⟨rfl, rfl, rfl, rfl, rfl, rfl⟩ hinv

structure Named (row : K8sRow) (w : Management) : Prop where
  used : row.id ∈ w.used
  row : ∀ key ∈ w.keys, key.1 = row.id → key.2 = (row.tenantId, row.clusterId)

theorem Named.kept {row : K8sRow} (h : Named row w) (hw : CredRely i w w') : Named row w' := by
  refine ⟨hw.used _ h.used, fun key hkey hid => ?_⟩
  rcases hw.keys key hkey with hkey | hnew
  · exact h.row key hkey hid
  · exact absurd h.used (hid ▸ hnew)

theorem fits_acceptDelete {row : K8sRow} {drawn : String} (hinv : JobsInv w ∧ CertInv w)
    (hrow : Named row w) (hfresh : ∀ j ∈ w.jobs, j.id ≠ drawn)
    (hfirst : ∀ j ∈ w.jobs, j.type = .delete → j.active → j.k8sId ≠ row.id) :
    Fits i w (w.acceptDelete row drawn) := by
  let g (j : K8sJob) : K8sJob :=
    let j := if j.type = .create ∧ j.state = .queued ∧ j.k8sId = row.id then
      { j with state := .cancelled, cancelRequested := true } else j
    if j.type = .create ∧ j.state = .running ∧ j.k8sId = row.id then
      { j with cancelRequested := true } else j
  have hg : ∀ j, (g j).of = j.of ∧ ((g j).active → j.active) ∧
      (j.state = .running → (g j).state = .running) := by
    intro j
    by_cases hq : j.type = .create ∧ j.state = .queued ∧ j.k8sId = row.id
    · simp [g, hq, K8sJob.of, K8sJob.active]
    · by_cases hr : j.type = .create ∧ j.state = .running ∧ j.k8sId = row.id
      · simp [g, hr, K8sJob.of, K8sJob.active]
      · simp [g, hq, hr]
  have hwritten : JobsWritten i g
      (some ⟨drawn, .delete, row.tenantId, row.clusterId, row.id, .queued, false⟩) w
      (w.acceptDelete row drawn) := by
    refine ⟨?_, keys_update fun _ => rfl, fun _ h => mem_cons_of_mem _ h, rfl, rfl, rfl,
      fun j _ => (hg j).1, fun j _ => (hg j).2.1, fun j _ _ => (hg j).2.2, fun j _ hstate _ => (hg j).2.2 hstate,
      fun x hx => ?_⟩
    · simp only [Management.acceptDelete, Management.updateJobs, Management.update, map_map,
        Option.toList_some]
      refine congrArg (· ++ _) (map_congr_left fun j _ => ?_)
      simp [g]
    · obtain rfl := Option.some.inj hx
      exact ⟨rfl, hfresh, mem_cons_self, hrow.row, hfirst⟩
  exact hwritten.fits ⟨rfl, rfl, rfl, rfl, rfl, rfl⟩ hinv

/-! ### Calls on a row, and on credentials whose lock is held -/

structure Mine (i : K8sProc) (type : K8sJobType) (id t k : String) (w : Management) : Prop where
  runs : Runs i type id t k w
  there : (id, t, k) ∈ w.keys
  used : id ∈ w.used

/-- It holds the lock on the credentials of its row's tenant, and no other. -/
structure Within (i : K8sProc) (type : K8sJobType) (id t k : String) (w : Management) : Prop
    extends Mine i type id t k w where
  held : w.holder t k = some i
  only : ∀ t' k', (t', k') ≠ (t, k) → w.holder t' k' ≠ some i

/-- No row whose delete has not looked got past its credentials. -/
def NoPast (t k : String) (w : Management) : Prop := ∀ id, Open id t k w → w.past id = false

section Own

variable {type : K8sJobType}

theorem Mine.kept (h : Mine i type id t k w) (hw : CredRely i w w') : Mine i type id t k w' :=
  ⟨hw.runs _ _ _ _ h.runs, hw.rows _ _ _ _ h.runs h.there, hw.used _ h.used⟩

theorem Free.kept (h : Free i w) (hw : CredRely i w w') : Free i w' :=
  fun t k => hw.free t k (h t k)

theorem Within.kept (h : Within i type id t k w) (hw : CredRely i w w') : Within i type id t k w' :=
  ⟨h.toMine.kept hw, (hw.pairs t k h.held).2, fun t' k' hne => hw.free t' k' (h.only t' k' hne)⟩

theorem NoPast.kept (h : NoPast t k w) (hw : PairKept t k w w') : NoPast t k w' := by
  intro id hopen
  refine Bool.eq_false_iff.mpr fun hpast => ?_
  obtain ⟨hwas, hpast⟩ := hw.past id hopen hpast
  rw [h id hwas] at hpast
  cases hpast

theorem noPast_of_secret (hcert : CertInv w) (hsecret : w.secrets t k = none) : NoPast t k w := by
  intro id hopen
  refine Bool.eq_false_iff.mpr fun hpast => ?_
  obtain ⟨fp, hthere, -⟩ := hcert.secret t k id hopen hpast
  rw [hsecret] at hthere
  cases hthere

theorem Within.fits (h : Within i type id t k w) (hinv : JobsInv w ∧ CertInv w) (hinv' : JobsInv w')
    (hguar : JobsGuar i w w') (hjobs : w'.jobs = w.jobs) (hholder : w'.holder = w.holder)
    (hpast : w'.past = w.past)
    (hpairs : ∀ t' k', (t', k') ≠ (t, k) → PairKept t' k' w w')
    (hfresh : ∀ c ∈ w'.trusted, c.fingerprint < w'.generated)
    (hunique : ∀ c ∈ w'.trusted, ∀ c' ∈ w'.trusted, c.fingerprint = c'.fingerprint → c = c')
    (hsecret : ∀ id, Open id t k w' → w.past id = true →
      ∃ fp, w'.secrets t k = some fp ∧ ⟨k, t, fp⟩ ∈ w'.trusted) : Fits i w w' := by
  have hother : ∀ t' k', w.holder t' k' ≠ some i → PairKept t' k' w w' := by
    intro t' k' hne
    refine hpairs t' k' fun heq => hne ?_
    rw [(mk.inj heq).1, (mk.inj heq).2]
    exact h.held
  refine ⟨⟨hinv', fun id hid => ?_, hfresh, hunique, fun t' k' hfree => ?_, fun t' k' id hopen hid => ?_,
    ?_⟩, hguar, hother, fun t' k' => .inl (by rw [hholder])⟩
  · rw [hpast] at hid
    exact hguar.used id (hinv.2.past_used id hid)
  · rw [hholder] at hfree
    refine (hinv.2.settled t' k' hfree).kept (hother t' k' ?_)
    rw [hfree]
    exact fun heq => (nomatch heq)
  · by_cases hown : (t', k') = (t, k)
    · obtain ⟨rfl, rfl⟩ := mk.inj hown
      rw [hpast] at hid
      exact hsecret id hopen hid
    · have hkept := hpairs t' k' hown
      obtain ⟨hwas, hid⟩ := hkept.past id hopen hid
      obtain ⟨fp, hthere, hfp⟩ := hinv.2.secret t' k' id hwas hid
      refine ⟨fp, ?_, (hkept.trusted fp).mpr hfp⟩
      rw [hkept.secrets_of_row hwas.there rfl]
      exact hthere
  · rw [hholder, hjobs]
    exact hinv.2.held

theorem Within.fits_own (h : Within i type id t k w) (hinv : JobsInv w ∧ CertInv w)
    (hrows : SameRows w w') (hholder : w'.holder = w.holder) (hpast : w'.past = w.past)
    (hpairs : ∀ t' k', (t', k') ≠ (t, k) → w'.credentials t' k' = w.credentials t' k' ∧
      (∀ fp, ⟨k', t', fp⟩ ∈ w'.trusted ↔ ⟨k', t', fp⟩ ∈ w.trusted) ∧
      w'.secrets t' k' = w.secrets t' k')
    (hfresh : ∀ c ∈ w'.trusted, c.fingerprint < w'.generated)
    (hunique : ∀ c ∈ w'.trusted, ∀ c' ∈ w'.trusted, c.fingerprint = c'.fingerprint → c = c')
    (hsecret : NoPast t k w ∨ ∃ fp, w'.secrets t k = some fp ∧ ⟨k, t, fp⟩ ∈ w'.trusted) :
    Fits i w w' ∧ Within i type id t k w' := by
  refine ⟨h.fits hinv (hrows.inv hinv.1) (hrows.guar i) hrows.jobs hholder hpast (fun t' k' hne => ?_)
    hfresh hunique fun id hopen hid => ?_, ⟨hrows.runs h.runs, ?_, ?_⟩, ?_, ?_⟩
  · obtain ⟨hcredentials, htrusted, hsecrets⟩ := hpairs t' k' hne
    refine ⟨hcredentials, htrusted, .inl hsecrets, fun id hopen => hrows.open_iff.mpr hopen,
      fun id hopen hid => ⟨hrows.open_iff.mp hopen, ?_⟩⟩
    rw [hpast] at hid
    exact hid
  · rcases hsecret with hnone | hthere
    · rw [hnone id (hrows.open_iff.mp hopen)] at hid
      cases hid
    · exact hthere
  · rw [hrows.keys]
    exact h.there
  · rw [hrows.used]
    exact h.used
  · rw [hholder]
    exact h.held
  · rw [hholder]
    exact h.only

theorem Within.fits_checked (h : Within i .delete id t k w) (hinv : JobsInv w ∧ CertInv w)
    (hnone : NoCreate id w) :
    Fits i w { w with checked := update w.checked id true } := by
  have hback : ∀ id' t' k', Open id' t' k' { w with checked := update w.checked id true } →
      Open id' t' k' w := by
    rintro id' t' k' ⟨hthere, hunchecked⟩
    refine ⟨hthere, ?_⟩
    by_cases heq : id' = id
    · rw [heq] at hunchecked
      simp at hunchecked
    · rw [← hunchecked]
      exact (update_of_ne heq _ _).symm
  have hopen : ∀ id' t' k', id' ≠ id → Open id' t' k' w →
      Open id' t' k' { w with checked := update w.checked id true } := by
    rintro id' t' k' hne ⟨hthere, hunchecked⟩
    refine ⟨hthere, ?_⟩
    show update w.checked id true id' = false
    rw [update_of_ne hne]
    exact hunchecked
  have hmono : ∀ id', w.checked id' = true → update w.checked id true id' = true := by
    intro id' hid'
    by_cases heq : id' = id
    · rw [heq, update_self]
    · rw [update_of_ne heq]
      exact hid'
  refine h.fits hinv ?_ ?_ rfl rfl rfl (fun t' k' hne => ?_) hinv.2.fresh hinv.2.unique
    fun id' hid' hpast => hinv.2.secret t k id' (hback id' t k hid') hpast
  · refine ⟨hinv.1.jobIds, hinv.1.jobRows, hinv.1.rowIds, hinv.1.keys_used, hinv.1.jobs_used,
      fun id' hid' => ?_, fun j hj htype hactive => ?_, hinv.1.deleteOnce, hinv.1.looked⟩
    · by_cases heq : id' = id
      · rw [heq]
        exact h.used
      · refine hinv.1.checked_used id' ?_
        rw [← hid']
        exact (update_of_ne heq _ _).symm
    · refine hopen _ _ _ (fun heq => ?_) (hinv.1.creating j hj htype hactive)
      rw [hnone j hj htype heq] at hactive
      cases hactive
  · exact ⟨fun j hj _ hstate => ⟨j, hj, rfl, rfl, rfl, rfl, rfl, hstate⟩, fun _ _ h => h, fun _ h => h,
      fun _ h => .inl h, fun _ h => .inl h, hmono, fun _ h => .inl h, fun _ _ _ h => h⟩
  · refine ⟨rfl, fun _ => Iff.rfl, .inl rfl, fun id' hid' => hopen id' t' k' (fun heq => hne ?_) hid',
      fun id' hid' hpast => ⟨hback id' t' k' hid', hpast⟩⟩
    have hsame := hinv.1.rowIds _ hid'.there _ h.there heq
    exact congrArg Prod.snd hsame

theorem Mine.fits_deleteRow (h : Mine i .delete id t k w) (hinv : JobsInv w ∧ CertInv w)
    (hchecked : w.checked id = true) :
    Fits i w { w with rows := w.rows.filter (·.id ≠ id) } := by
  have hkeys : ∀ key, key ∈ ({ w with rows := w.rows.filter (·.id ≠ id) } : Management).keys ↔
      key ∈ w.keys ∧ key.1 ≠ id := by
    intro key
    constructor
    · intro hkey
      obtain ⟨r, hr, rfl⟩ := List.mem_map.mp hkey
      have hfound := mem_filter.mp hr
      exact ⟨mem_map_of_mem hfound.1, by simpa using hfound.2⟩
    · rintro ⟨hkey, hne⟩
      obtain ⟨r, hr, rfl⟩ := List.mem_map.mp hkey
      refine List.mem_map.mpr ⟨r, mem_filter.mpr ⟨hr, ?_⟩, rfl⟩
      simpa using hne
  have hback : ∀ id' t' k', Open id' t' k' { w with rows := w.rows.filter (·.id ≠ id) } →
      Open id' t' k' w := fun _ _ _ hopen => ⟨((hkeys _).mp hopen.there).1, hopen.unchecked⟩
  have hopen : ∀ id' t' k', Open id' t' k' w →
      Open id' t' k' { w with rows := w.rows.filter (·.id ≠ id) } := by
    intro id' t' k' hopen
    refine ⟨(hkeys _).mpr ⟨hopen.there, fun heq => ?_⟩, hopen.unchecked⟩
    have hunchecked := hopen.unchecked
    rw [show id' = id from heq, hchecked] at hunchecked
    cases hunchecked
  have hcerts : SameCerts w { w with rows := w.rows.filter (·.id ≠ id) } := ⟨rfl, rfl, rfl, rfl, rfl, rfl⟩
  have hpairs := hcerts.pairs hopen fun id' t' k' hid' _ => hback id' t' k' hid'
  refine ⟨⟨⟨hinv.1.jobIds, fun j hj key hkey => hinv.1.jobRows j hj key ((hkeys key).mp hkey).1,
    fun key hkey key' hkey' => hinv.1.rowIds key ((hkeys key).mp hkey).1 key' ((hkeys key').mp hkey').1,
    fun key hkey => hinv.1.keys_used key ((hkeys key).mp hkey).1, hinv.1.jobs_used, hinv.1.checked_used,
    fun j hj htype hactive => hopen _ _ _ (hinv.1.creating j hj htype hactive), hinv.1.deleteOnce,
    fun t ht key hkey => hinv.1.looked t ht key ((hkeys key).mp hkey).1⟩,
    hcerts.inv hinv.2 hpairs (fun _ h => h) hinv.2.held⟩, ?_, CertGuar.of_pairs hpairs rfl⟩
  refine ⟨fun j hj _ hstate => ⟨j, hj, rfl, rfl, rfl, rfl, rfl, hstate⟩, fun _ _ h => h, fun _ h => h,
    fun key hkey => .inl ((hkeys key).mp hkey).1, fun key hkey => ?_, fun _ h => h, fun _ h => .inl h,
    fun _ _ _ h => h⟩
  by_cases heq : key.1 = id
  · have hsame : key = (id, t, k) := hinv.1.rowIds key hkey _ h.there heq
    rw [hsame]
    exact .inr h.runs
  · exact .inl ((hkeys key).mpr ⟨hkey, heq⟩)

theorem fits_looked (hinv : JobsInv w ∧ CertInv w) (hleft : ∀ key ∈ w.keys, key.2.1 ≠ t) :
    Fits i w { w with looked := update w.looked t (i :: w.looked t) } := by
  have hcerts : SameCerts w { w with looked := update w.looked t (i :: w.looked t) } :=
    ⟨rfl, rfl, rfl, rfl, rfl, rfl⟩
  have hopen : ∀ id' t' k', Open id' t' k' w ↔
      Open id' t' k' { w with looked := update w.looked t (i :: w.looked t) } :=
    fun _ _ _ => ⟨fun h => ⟨h.there, h.unchecked⟩, fun h => ⟨h.there, h.unchecked⟩⟩
  have hpairs := hcerts.pairs (fun id' t' k' => (hopen id' t' k').mp)
    fun id' t' k' hid' _ => (hopen id' t' k').mpr hid'
  refine ⟨⟨⟨hinv.1.jobIds, hinv.1.jobRows, hinv.1.rowIds, hinv.1.keys_used, hinv.1.jobs_used,
    hinv.1.checked_used, fun j hj htype hactive => (hopen _ _ _).mp (hinv.1.creating j hj htype hactive),
    hinv.1.deleteOnce, fun t' ht' => ?_⟩, hcerts.inv hinv.2 hpairs (fun _ h => h) hinv.2.held⟩, ?_,
    CertGuar.of_pairs hpairs rfl⟩
  · by_cases heq : t' = t
    · rw [heq]
      exact hleft
    · refine hinv.1.looked t' fun hnil => ht' ?_
      rw [← hnil]
      exact update_of_ne heq _ _
  · refine ⟨fun j hj _ hstate => ⟨j, hj, rfl, rfl, rfl, rfl, rfl, hstate⟩, fun _ _ h => h, fun _ h => h,
      fun _ h => .inl h, fun _ h => .inl h, fun _ h => h, fun _ h => .inl h, fun t' j _ hj => ?_⟩
    show j ∈ update w.looked t (i :: w.looked t) t'
    by_cases heq : t' = t
    · rw [heq, update_self]
      exact mem_cons_of_mem _ (heq ▸ hj)
    · rw [update_of_ne heq]
      exact hj

theorem fits_deleteNamespace (hinv : JobsInv w ∧ CertInv w) (hlooked : i ∈ w.looked t) :
    Fits i w
      { w with
        namespaces := update w.namespaces t false
        secrets := update w.secrets t fun _ => none
        looked := update w.looked t ((w.looked t).erase i) } := by
  have hleft := hinv.1.looked t (ne_nil_of_mem hlooked)
  have hpairs : ∀ t' k', PairKept t' k' w
      { w with
        namespaces := update w.namespaces t false
        secrets := update w.secrets t fun _ => none
        looked := update w.looked t ((w.looked t).erase i) } := by
    refine fun t' k' => ⟨rfl, fun _ => Iff.rfl, ?_, fun _ h => ⟨h.there, h.unchecked⟩,
      fun _ h hpast => ⟨⟨h.there, h.unchecked⟩, hpast⟩⟩
    by_cases heq : t' = t
    · refine .inr ⟨?_, heq ▸ hleft⟩
      rw [heq]
      exact congrFun (update_self t _ w.secrets) k'
    · exact .inl (congrFun (update_of_ne heq _ w.secrets) k')
  refine ⟨⟨⟨hinv.1.jobIds, hinv.1.jobRows, hinv.1.rowIds, hinv.1.keys_used, hinv.1.jobs_used,
    hinv.1.checked_used, fun j hj htype hactive => ?_, hinv.1.deleteOnce, fun t' ht' => ?_⟩,
    hinv.2.kept hpairs rfl rfl rfl rfl (fun _ h => h) hinv.2.held⟩, ?_, CertGuar.of_pairs hpairs rfl⟩
  · have hopen := hinv.1.creating j hj htype hactive
    exact ⟨hopen.there, hopen.unchecked⟩
  · by_cases heq : t' = t
    · rw [heq]
      exact hleft
    · refine hinv.1.looked t' fun hnil => ht' ?_
      rw [← hnil]
      exact update_of_ne heq _ _
  · refine ⟨fun j hj _ hstate => ⟨j, hj, rfl, rfl, rfl, rfl, rfl, hstate⟩, fun _ _ h => h, fun _ h => h,
      fun _ h => .inl h, fun _ h => .inl h, fun _ h => h, fun t' ht' => ?_, fun t' j hne hj => ?_⟩
    · by_cases heq : t' = t
      · rw [heq]
        exact .inr hleft
      · refine .inl ?_
        rw [← ht']
        exact update_of_ne heq _ _
    · show j ∈ update w.looked t ((w.looked t).erase i) t'
      by_cases heq : t' = t
      · rw [heq, update_self]
        exact (mem_erase_of_ne hne).mpr (heq ▸ hj)
      · rw [update_of_ne heq]
        exact hj

theorem Mine.fits_lock (h : Mine i type id t k w) (hinv : JobsInv w ∧ CertInv w) (hfree : Free i w)
    (hnone : w.holder t k = none) :
    Fits i w
      { w with
        holder := setAt w.holder t k (some i)
        saved := setAt w.saved t k (w.credentials t k) } ∧
      Within i type id t k
        { w with
          holder := setAt w.holder t k (some i)
          saved := setAt w.saved t k (w.credentials t k) } := by
  have hpairs : ∀ t' k', PairKept t' k' w
      { w with
        holder := setAt w.holder t k (some i)
        saved := setAt w.saved t k (w.credentials t k) } := fun _ _ =>
    ⟨rfl, fun _ => Iff.rfl, .inl rfl, fun _ h => ⟨h.there, h.unchecked⟩,
      fun _ h hpast => ⟨⟨h.there, h.unchecked⟩, hpast⟩⟩
  have hrows : SameRows w
      { w with
        holder := setAt w.holder t k (some i)
        saved := setAt w.saved t k (w.credentials t k) } := ⟨rfl, rfl, rfl, rfl, rfl, fun _ h => h⟩
  refine ⟨⟨⟨hrows.inv hinv.1, hinv.2.past_used, hinv.2.fresh, hinv.2.unique, fun t' k' hnone' => ?_,
    fun t' k' id hopen => hinv.2.secret t' k' id (hrows.open_iff.mp hopen), fun t' k' i' hi' => ?_⟩,
    hrows.guar i, fun t' k' _ => hpairs t' k', fun t' k' => ?_⟩, ⟨h.runs, h.there, h.used⟩,
    setAt_self _ _ _ _, fun t' k' hne => ?_⟩
  · by_cases heq : (t', k') = (t, k)
    · obtain ⟨rfl, rfl⟩ := mk.inj heq
      exact (hinv.2.settled _ _ hnone).kept (hpairs _ _)
    · refine (hinv.2.settled t' k' ?_).kept (hpairs t' k')
      rw [← hnone']
      exact (setAt_ne _ _ heq).symm
  · by_cases heq : (t', k') = (t, k)
    · obtain ⟨rfl, rfl⟩ := mk.inj heq
      have hi : some i = some i' := (setAt_self w.holder t' k' (some i)).symm.trans hi'
      obtain ⟨j, hj, hid, -, -, htenant, hcluster, hstate⟩ := h.runs
      exact ⟨j, hj, hid.trans (Option.some.inj hi), htenant, hcluster, hstate⟩
    · exact hinv.2.held t' k' i' ((setAt_ne w.holder (some i) heq).symm.trans hi')
  · by_cases heq : (t', k') = (t, k)
    · obtain ⟨rfl, rfl⟩ := mk.inj heq
      exact .inr (.inl ⟨hnone, setAt_self _ _ _ _⟩)
    · exact .inl (setAt_ne _ _ heq)
  · show setAt w.holder t k (some i) t' k' ≠ some i
    rw [setAt_ne _ _ hne]
    exact hfree t' k'

theorem creating_of_runs (hinv : JobsInv w) (h : Runs i type id t k w) :
    w.creating i = if type = .create then some id else none := by
  obtain ⟨j, hj, rfl, rfl, rfl, -, -, -⟩ := h
  unfold Management.creating
  dsimp only
  cases htype : j.type with
  | create =>
    have hfound : ∃ x, w.jobs.find? (fun x => x.id = j.id ∧ x.type = .create) = some x := by
      refine Option.isSome_iff_exists.mp (List.find?_isSome.mpr ⟨j, hj, ?_⟩)
      simp [htype]
    obtain ⟨x, hx⟩ := hfound
    have hthis : x.id = j.id ∧ x.type = .create := by simpa using List.find?_some hx
    have hsame := hinv.jobIds x (mem_of_find?_eq_some hx) j hj hthis.1
    rw [hx, if_pos rfl, hsame]
    rfl
  | delete =>
    have hnone : w.jobs.find? (fun x => x.id = j.id ∧ x.type = .create) = none := by
      refine List.find?_eq_none.mpr fun x hx hthis => ?_
      have hthis : x.id = j.id ∧ x.type = .create := by simpa using hthis
      rw [hinv.jobIds x hx j hj hthis.1, htype] at hthis
      cases hthis.2
    rw [hnone, if_neg K8sJobType.noConfusion]
    rfl

theorem Within.fits_commit (h : Within i type id t k w) (hinv : JobsInv w ∧ CertInv w)
    (hsettled : PairSettled t k w)
    (hissued : type = .create → ∃ fp, w.secrets t k = some fp ∧ ⟨k, t, fp⟩ ∈ w.trusted) :
    Fits i w (w.committed i t k) ∧ Mine i type id t k (w.committed i t k) ∧
      Free i (w.committed i t k) := by
  have hpast : ∀ id', (w.committed i t k).past id' = true → w.past id' = true ∨
      id' = id ∧ type = .create := by
    intro id' hid'
    have heq : (w.committed i t k).past =
        (if type = .create then some id else none).elim w.past
          fun id => update w.past id true := by
      rw [← creating_of_runs hinv.1 h.runs]
      rfl
    rw [heq] at hid'
    split_ifs at hid' with htype
    · by_cases hsame : id' = id
      · exact .inr ⟨hsame, htype⟩
      · refine .inl ?_
        rw [← hid']
        exact (update_of_ne hsame _ _).symm
    · exact .inl hid'
  have hrows : SameRows w (w.committed i t k) := ⟨rfl, rfl, rfl, rfl, rfl, fun _ h => h⟩
  have hpairs : ∀ t' k', (t', k') ≠ (t, k) → PairKept t' k' w (w.committed i t k) := by
    intro t' k' hne
    refine ⟨rfl, fun _ => Iff.rfl, .inl rfl, fun _ hopen => hrows.open_iff.mpr hopen,
      fun id' hopen hid' => ⟨hrows.open_iff.mp hopen, ?_⟩⟩
    rcases hpast id' hid' with hwas | ⟨hsame, -⟩
    · exact hwas
    · exact absurd (congrArg Prod.snd (hinv.1.rowIds _ hopen.there _ h.there hsame)) hne
  have hholder : (w.committed i t k).holder = setAt w.holder t k none := rfl
  refine ⟨⟨⟨hrows.inv hinv.1, fun id' hid' => ?_, hinv.2.fresh, hinv.2.unique, fun t' k' hnone => ?_,
    fun t' k' id' hopen hid' => ?_, fun t' k' i' hi' => ?_⟩, hrows.guar i, fun t' k' hne => ?_,
    fun t' k' => ?_⟩, ⟨h.runs, h.there, h.used⟩, fun t' k' => ?_⟩
  · rcases hpast id' hid' with hwas | ⟨rfl, -⟩
    · exact hinv.2.past_used id' hwas
    · exact h.used
  · by_cases heq : (t', k') = (t, k)
    · obtain ⟨rfl, rfl⟩ := mk.inj heq
      refine ⟨hsettled.recorded, hsettled.trusted, hsettled.secret, fun hne => ?_⟩
      obtain ⟨id', hopen⟩ := hsettled.needed hne
      exact ⟨id', hrows.open_iff.mpr hopen⟩
    · refine (hinv.2.settled t' k' ?_).kept (hpairs t' k' heq)
      rw [← setAt_ne w.holder none heq]
      exact hnone
  · rcases hpast id' hid' with hwas | ⟨rfl, htype⟩
    · exact hinv.2.secret t' k' id' (hrows.open_iff.mp hopen) hwas
    · have hsame : (t', k') = (t, k) := congrArg Prod.snd (hinv.1.rowIds _ hopen.there _ h.there rfl)
      rw [(mk.inj hsame).1, (mk.inj hsame).2]
      exact hissued htype
  · by_cases heq : (t', k') = (t, k)
    · rw [hholder, (mk.inj heq).1, (mk.inj heq).2, setAt_self] at hi'
      cases hi'
    · rw [hholder, setAt_ne _ _ heq] at hi'
      exact hinv.2.held t' k' i' hi'
  · refine hpairs t' k' fun heq => hne ?_
    rw [(mk.inj heq).1, (mk.inj heq).2]
    exact h.held
  · by_cases heq : (t', k') = (t, k)
    · obtain ⟨rfl, rfl⟩ := mk.inj heq
      exact .inr (.inr ⟨h.held, setAt_self _ _ _ _⟩)
    · exact .inl (setAt_ne _ _ heq)
  · by_cases heq : (t', k') = (t, k)
    · rw [hholder, (mk.inj heq).1, (mk.inj heq).2, setAt_self]
      exact fun hcontra => (nomatch hcontra)
    · rw [hholder, setAt_ne _ _ heq]
      exact h.only t' k' heq

end Own

end IncusCloud.Kubernetes
