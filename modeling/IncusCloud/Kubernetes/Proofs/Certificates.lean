import IncusCloud.Kubernetes.Proofs.Revoking

/-!
# The certificate of a tenant on an Incus cluster

The jobs, call by call, and every run of them. Within the lock a job knows the record, the
certificate that is trusted and the secret (`Pair`); each call moves them from one step of `issue`
or `revokeCredentials` to the next.
-/

namespace IncusCloud.Kubernetes

open Lib Handler List Option
open Function (update update_self)
open Management (setAt)
open Mobility (JobError)

variable {i : K8sProc} {w w' : Management} {o : K8sOutcome} {type : K8sJobType} {id t k : String}
  {l : Looked} {record cert secret : Option ℕ} {X Y : Management → Prop}

structure Pair (t k : String) (record cert secret : Option ℕ) (w : Management) : Prop where
  record : w.credentials t k = record
  cert : ∀ fp, ⟨k, t, fp⟩ ∈ w.trusted ↔ cert = some fp
  secret : w.secrets t k = secret

structure Holding (i : K8sProc) (type : K8sJobType) (id t k : String) (X : Management → Prop)
    (record cert secret : Option ℕ) (w : Management) : Prop where
  within : Within i type id t k w
  pair : Pair t k record cert secret w
  extra : X w

theorem PairSettled.pair (h : PairSettled t k w) :
    ∃ x s, (s = none ∨ s = x) ∧ Pair t k x x s w := by
  refine ⟨w.credentials t k, w.secrets t k, ?_, rfl, fun fp => ⟨h.recorded fp, h.trusted fp⟩, rfl⟩
  cases hsecret : w.secrets t k with
  | none => exact .inl rfl
  | some fp => exact .inr (h.secret fp hsecret).symm

variable {x s : Option ℕ}

theorem Pair.settled (h : Pair t k x x s w) (hs : s = none ∨ s = x)
    (hneeded : x ≠ none → ∃ id, Open id t k w) : PairSettled t k w := by
  refine ⟨fun fp hfp => ?_, fun fp hfp => ?_, fun fp hfp => ?_, fun hne => ?_⟩
  · rw [h.record]
    exact (h.cert fp).mp hfp
  · rw [h.record] at hfp
    exact (h.cert fp).mpr hfp
  · rw [h.secret] at hfp
    rw [h.record]
    rcases hs with rfl | rfl
    · cases hfp
    · exact hfp
  · rw [h.record] at hne
    exact hneeded hne

theorem Pair.kept (h : Pair t k record cert secret w) (hw : PairKept t k w w')
    (hthere : (id, t, k) ∈ w.keys) : Pair t k record cert secret w' := by
  refine ⟨hw.credentials.trans h.record, fun fp => (hw.trusted fp).trans (h.cert fp), ?_⟩
  rw [hw.secrets_of_row hthere rfl]
  exact h.secret

theorem reply_ok {α : Type} {done : α × Management} {r : Except JobError α × Management}
    (ho : o.fails = false) (h : w.reply o done = some r) : r = (.ok done.1, done.2) := by
  unfold Management.reply at h
  rw [ho] at h
  exact (some.inj h).symm

theorem silent_ok {α : Type} {a : α} {r : Except JobError α × Management} (ho : o.fails = false)
    (h : w.silent o a = some r) : r = (.ok a, w) := by
  unfold Management.silent at h
  rw [ho] at h
  exact (some.inj h).symm

/-! ### Within the lock -/

section Held

variable (hX : ∀ w w', CredRely i w w' → Within i type id t k w → X w → X w')
  (hown : ∀ w w', SameRows w w' → w'.past = w.past → X w → X w')

include hX in
theorem Holding.kept (h : Holding i type id t k X record cert secret w) (hw : CredRely i w w') :
    Holding i type id t k X record cert secret w' :=
  ⟨h.within.kept hw, h.pair.kept (hw.pairs t k h.within.held).1 h.within.there,
    hX w w' hw h.within h.extra⟩

include hown in
theorem Holding.step {record' cert' secret' : Option ℕ}
    (h : Holding i type id t k X record cert secret w)
    (hinv : JobsInv w ∧ CertInv w) (hrows : SameRows w w')
    (hholder : w'.holder = w.holder) (hpast : w'.past = w.past)
    (hpairs : ∀ t' k', (t', k') ≠ (t, k) → w'.credentials t' k' = w.credentials t' k' ∧
      (∀ fp, ⟨k', t', fp⟩ ∈ w'.trusted ↔ ⟨k', t', fp⟩ ∈ w.trusted) ∧
      w'.secrets t' k' = w.secrets t' k')
    (hfresh : ∀ c ∈ w'.trusted, c.fingerprint < w'.generated)
    (hunique : ∀ c ∈ w'.trusted, ∀ c' ∈ w'.trusted, c.fingerprint = c'.fingerprint → c = c')
    (hsecret : NoPast t k w ∨ ∃ fp, secret' = some fp ∧ cert' = some fp)
    (hpair : Pair t k record' cert' secret' w') :
    revoking.guar i w w' ∧ revoking.inv w' ∧ Holding i type id t k X record' cert' secret' w' := by
  have hthere : NoPast t k w ∨ ∃ fp, w'.secrets t k = some fp ∧ ⟨k, t, fp⟩ ∈ w'.trusted := by
    rcases hsecret with hnone | ⟨fp, hfp, hcert⟩
    · exact .inl hnone
    · exact .inr ⟨fp, hpair.secret.trans hfp, (hpair.cert fp).mpr hcert⟩
  obtain ⟨hfits, hwithin⟩ := h.within.fits_own hinv hrows hholder hpast hpairs hfresh hunique hthere
  exact ⟨hfits.guar, hfits.inv, hwithin, hpair, hown w w' hrows hpast h.extra⟩

include hX in
theorem safe_selectCredentials (h : Holding i type id t k X record cert secret w) :
    safe steadyManagement revoking i
      (fun row _ w => row = record ∧ Holding i type id t k X record cert secret w)
        (fun _ _ _ => False)
      (Managing.selectCredentials t k) l w := by
  refine safe_call (c := K8sCall.selectCredentials t k)
    (J := Holding i type id t k X record cert secret) (fun _ _ hw h => h.kept hX hw)
    (fun w o r hw hinv _ hr => ?_) h
  obtain rfl := silent_ok rfl hr
  have hfits := ((Same.refl w).fits (i := i) hinv).1
  exact ⟨hfits.guar, hinv, hw.pair.record, hw⟩

include hX in
theorem safe_getSecret (h : Holding i type id t k X record cert secret w) :
    safe steadyManagement revoking i
      (fun there _ w => there = secret.isSome ∧ Holding i type id t k X record cert secret w)
      (fun _ _ _ => False) (Managing.getSecret t k) l w := by
  refine safe_call (c := K8sCall.getSecret t k)
    (J := Holding i type id t k X record cert secret) (fun _ _ hw h => h.kept hX hw)
    (fun w o r hw hinv _ hr => ?_) h
  obtain rfl := silent_ok rfl hr
  have hfits := ((Same.refl w).fits (i := i) hinv).1
  exact ⟨hfits.guar, hinv, congrArg Option.isSome hw.pair.secret, hw⟩

include hX hown

theorem safe_untrust {fp : ℕ} (hno : secret = none ∨ ∀ w, X w → NoPast t k w)
    (h : Holding i type id t k X record (some fp) secret w) :
    safe steadyManagement revoking i
      (fun _ _ w => Holding i type id t k X record none secret w) (fun _ _ _ => False)
      (Managing.untrust k fp) l w := by
  refine safe_call (c := K8sCall.untrust k fp)
    (J := Holding i type id t k X record (some fp) secret) (fun _ _ hw h => h.kept hX hw)
    (fun w o r hw hinv _ hr => ?_) h
  obtain rfl := reply_ok rfl hr
  have hnone : NoPast t k w := by
    rcases hno with hsecret | hno
    · exact noPast_of_secret hinv.2 (hw.pair.secret.trans hsecret)
    · exact hno w hw.extra
  have hmem : ⟨k, t, fp⟩ ∈ w.trusted := (hw.pair.cert fp).mpr rfl
  have hkept (c : Certificate) :
      c ∈ w.trusted.filter (fun c => c.clusterId ≠ k ∨ c.fingerprint ≠ fp) ↔
        c ∈ w.trusted ∧ c ≠ ⟨k, t, fp⟩ := by
    rw [mem_filter]
    refine and_congr_right fun hc => ?_
    rw [decide_eq_true_iff]
    constructor
    · rintro hne rfl
      exact hne.elim (fun h => h rfl) fun h => h rfl
    · intro hne
      by_contra hboth
      rw [not_or, not_not, not_not] at hboth
      exact hne (hinv.2.unique c hc _ hmem hboth.2)
  refine hw.step hown hinv ⟨rfl, rfl, rfl, rfl, rfl, fun _ h => h⟩ rfl rfl (fun t' k' hne => ?_)
    (fun c hc => hinv.2.fresh c ((hkept c).mp hc).1)
    (fun c hc c' hc' => hinv.2.unique c ((hkept c).mp hc).1 c' ((hkept c').mp hc').1) (.inl hnone)
    ⟨hw.pair.record, fun fp' => ?_, hw.pair.secret⟩
  · refine ⟨rfl, fun fp' => (hkept _).trans (and_iff_left fun heq => hne ?_), rfl⟩
    rw [Certificate.mk.injEq] at heq
    rw [heq.1, heq.2.1]
  · refine (hkept _).trans ⟨fun hc => ?_, fun hc => (nomatch hc)⟩
    have hfp : fp = fp' := some.inj ((hw.pair.cert fp').mp hc.1)
    exact absurd (by rw [hfp]) hc.2

theorem safe_deleteCredentials (hno : secret = none ∨ ∀ w, X w → NoPast t k w)
    (h : Holding i type id t k X record cert secret w) :
    safe steadyManagement revoking i
      (fun _ _ w => Holding i type id t k X none cert secret w) (fun _ _ _ => False)
      (Managing.deleteCredentials t k) l w := by
  refine safe_call (c := K8sCall.deleteCredentials t k)
    (J := Holding i type id t k X record cert secret) (fun _ _ hw h => h.kept hX hw)
    (fun w o r hw hinv _ hr => ?_) h
  obtain rfl := reply_ok rfl hr
  have hnone : NoPast t k w := by
    rcases hno with hsecret | hno
    · exact noPast_of_secret hinv.2 (hw.pair.secret.trans hsecret)
    · exact hno w hw.extra
  refine hw.step hown hinv ⟨rfl, rfl, rfl, rfl, rfl, fun _ h => h⟩ rfl rfl (fun t' k' hne => ?_)
    hinv.2.fresh hinv.2.unique (.inl hnone) ⟨setAt_self _ _ _ _, hw.pair.cert, hw.pair.secret⟩
  exact ⟨setAt_ne _ _ hne, fun _ => Iff.rfl, rfl⟩

theorem safe_deleteSecret (hno : ∀ w, X w → NoPast t k w)
    (h : Holding i type id t k X record cert secret w) :
    safe steadyManagement revoking i
      (fun _ _ w => Holding i type id t k X record cert none w) (fun _ _ _ => False)
      (Managing.deleteSecret t k) l w := by
  refine safe_call (c := K8sCall.deleteSecret t k)
    (J := Holding i type id t k X record cert secret) (fun _ _ hw h => h.kept hX hw)
    (fun w o r hw hinv _ hr => ?_) h
  obtain rfl := reply_ok rfl hr
  refine hw.step hown hinv ⟨rfl, rfl, rfl, rfl, rfl, fun _ h => h⟩ rfl rfl (fun t' k' hne => ?_)
    hinv.2.fresh hinv.2.unique (.inl (hno w hw.extra))
      ⟨hw.pair.record, hw.pair.cert, setAt_self _ _ _ _⟩
  exact ⟨rfl, fun _ => Iff.rfl, setAt_ne _ _ hne⟩

theorem safe_trust (h : Holding i type id t k X record none none w) :
    safe steadyManagement revoking i
      (fun fp _ w => Holding i type id t k X record (some fp) none w) (fun _ _ _ => False)
      (Managing.trust t k) l w := by
  refine safe_call (c := K8sCall.trust t k)
    (J := Holding i type id t k X record none none) (fun _ _ hw h => h.kept hX hw)
    (fun w o r hw hinv _ hr => ?_) h
  obtain rfl := reply_ok rfl hr
  have hnew : ∀ c ∈ w.trusted, c.fingerprint ≠ w.generated := fun c hc =>
    Nat.ne_of_lt (hinv.2.fresh c hc)
  refine hw.step hown hinv ⟨rfl, rfl, rfl, rfl, rfl, fun _ h => h⟩ rfl rfl (fun t' k' hne => ?_)
    (fun c hc => ?_) (fun c hc c' hc' heq => ?_) (.inl (noPast_of_secret hinv.2 hw.pair.secret))
    ⟨hw.pair.record, fun fp' => ?_, hw.pair.secret⟩
  · refine ⟨rfl, fun fp' => mem_cons.trans (or_iff_right fun heq => hne ?_), rfl⟩
    rw [Certificate.mk.injEq] at heq
    rw [heq.1, heq.2.1]
  · show c.fingerprint < w.generated + 1
    rcases mem_cons.mp hc with rfl | hc
    · exact Nat.lt_succ_self _
    · exact Nat.lt_succ_of_lt (hinv.2.fresh c hc)
  · rcases mem_cons.mp hc with rfl | hc <;> rcases mem_cons.mp hc' with rfl | hc'
    · rfl
    · exact absurd heq.symm (hnew c' hc')
    · exact absurd heq (hnew c hc)
    · exact hinv.2.unique c hc c' hc' heq
  · show _ ∈ _ :: w.trusted ↔ some w.generated = some fp'
    have hnone : ⟨k, t, fp'⟩ ∉ w.trusted := fun hc => (nomatch (hw.pair.cert fp').mp hc)
    rw [mem_cons, or_iff_left hnone, Certificate.mk.injEq, some_inj]
    exact ⟨fun heq => heq.2.2.symm, fun heq => ⟨rfl, rfl, heq.symm⟩⟩

theorem safe_applySecret {fp : ℕ} (hns : ∀ w, X w → w.namespaces t = true)
    (h : Holding i type id t k X record (some fp) none w) :
    safe steadyManagement revoking i
      (fun _ _ w => Holding i type id t k X record (some fp) (some fp) w) (fun _ _ _ => False)
      (Managing.applySecret t k fp) l w := by
  refine safe_call (c := K8sCall.applySecret t k fp)
    (J := Holding i type id t k X record (some fp) none) (fun _ _ hw h => h.kept hX hw)
    (fun w o r hw hinv _ hr => ?_) h
  replace hr : (if w.namespaces t then
      w.reply (unfailing (.applySecret t k fp) o)
        ((), { w with secrets := setAt w.secrets t k (some fp) })
    else some (.error .failed, w)) = some r := hr
  rw [if_pos (hns w hw.extra)] at hr
  obtain rfl := reply_ok rfl hr
  refine hw.step hown hinv ⟨rfl, rfl, rfl, rfl, rfl, fun _ h => h⟩ rfl rfl (fun t' k' hne => ?_)
    hinv.2.fresh hinv.2.unique (.inr ⟨fp, rfl, rfl⟩)
    ⟨hw.pair.record, hw.pair.cert, setAt_self _ _ _ _⟩
  exact ⟨rfl, fun _ => Iff.rfl, setAt_ne _ _ hne⟩

theorem safe_insertCredentials {fp : ℕ} (h : Holding i type id t k X record (some fp) (some fp) w) :
    safe steadyManagement revoking i
      (fun _ _ w => Holding i type id t k X (some fp) (some fp) (some fp) w) (fun _ _ _ => False)
      (Managing.insertCredentials t k fp) l w := by
  refine safe_call (c := K8sCall.insertCredentials t k fp)
    (J := Holding i type id t k X record (some fp) (some fp)) (fun _ _ hw h => h.kept hX hw)
    (fun w o r hw hinv _ hr => ?_) h
  obtain rfl := reply_ok rfl hr
  refine hw.step hown hinv ⟨rfl, rfl, rfl, rfl, rfl, fun _ h => h⟩ rfl rfl (fun t' k' hne => ?_)
    hinv.2.fresh hinv.2.unique (.inr ⟨fp, rfl, rfl⟩)
      ⟨setAt_self _ _ _ _, hw.pair.cert, hw.pair.secret⟩
  exact ⟨setAt_ne _ _ hne, fun _ => Iff.rfl, rfl⟩

end Held

theorem safe_lock (hX : ∀ w w', CredRely i w w' → Mine i type id t k w → X w → X w')
    (hown : ∀ w w', SameRows w w' → w'.past = w.past → X w → X w')
    (h : Mine i type id t k w ∧ Free i w ∧ X w) :
    safe steadyManagement revoking i
      (fun _ _ w => ∃ x s, (s = none ∨ s = x) ∧ Holding i type id t k X x x s w)
        (fun _ _ _ => False)
      (Managing.lock t k) l w := by
  refine safe_call (c := K8sCall.lock t k)
    (J := fun w => Mine i type id t k w ∧ Free i w ∧ X w)
    (fun w w' hw h => ⟨h.1.kept hw, h.2.1.kept hw, hX w w' hw h.1 h.2.2⟩)
    (fun w o r hw hinv _ hr => ?_) h
  obtain ⟨hmine, hfree, hx⟩ := hw
  replace hr : answer i (.lock t k) w (unfailing (.lock t k) o) = some r := hr
  have hfails : (unfailing (.lock t k) o).fails = false := rfl
  simp only [answer, hfails, Bool.false_eq_true, if_false] at hr
  cases hheld : w.holder t k with
  | some i' =>
    rw [hheld] at hr
    cases hr
  | none =>
    rw [hheld] at hr
    obtain rfl := some.inj hr
    obtain ⟨hfits, hwithin⟩ := hmine.fits_lock hinv hfree hheld
    obtain ⟨x, s, hs, hpair⟩ := (hinv.2.settled t k hheld).pair
    refine ⟨hfits.guar, hfits.inv, x, s, hs, hwithin, ⟨hpair.record, hpair.cert, hpair.secret⟩, ?_⟩
    exact hown w _ ⟨rfl, rfl, rfl, rfl, rfl, fun _ h => h⟩ rfl hx

theorem safe_locked {fn : Managing Unit} {J : Management → Prop}
    (hX : ∀ w w', CredRely i w w' → Mine i type id t k w → X w → X w')
    (hown : ∀ w w', SameRows w w' → w'.past = w.past → X w → X w')
    (hfn : ∀ x s l w, (s = none ∨ s = x) → Holding i type id t k X x x s w →
      safe steadyManagement revoking i (fun _ _ => J) (fun _ _ _ => False) fn l w)
    (hJ : ∀ w w', CredRely i w w' → J w → J w') (hwithin : ∀ w, J w → Within i type id t k w)
    (hsettled : ∀ w, J w → JobsInv w → PairSettled t k w ∧
      (type = .create → ∃ fp, w.secrets t k = some fp ∧ ⟨k, t, fp⟩ ∈ w.trusted))
    (hY : ∀ w w', J w → SameRows w w' → Y w')
    (h : Mine i type id t k w ∧ Free i w ∧ X w) :
    safe steadyManagement revoking i
      (fun _ _ w => Mine i type id t k w ∧ Free i w ∧ Y w) (fun _ _ _ => False)
        (locked t k fn) l w := by
  have hcommit (l : Looked) (w : Management) (hw : J w) : safe steadyManagement revoking i
      (fun _ _ w => Mine i type id t k w ∧ Free i w ∧ Y w) (fun _ _ _ => False)
      (Managing.commit t k) l w := by
    refine safe_call (c := K8sCall.commit t k) (J := J) hJ (fun w o r hw hinv _ hr => ?_) hw
    obtain rfl := reply_ok rfl hr
    have hmet := hsettled w hw hinv.1
    obtain ⟨hfits, hmine, hfree⟩ := (hwithin w hw).fits_commit hinv hmet.1 hmet.2
    exact ⟨hfits.guar, hfits.inv, hmine, hfree, hY w _ hw ⟨rfl, rfl, rfl, rfl, rfl, fun _ h => h⟩⟩
  refine safe_seq (safe_lock hX hown h) fun _ l w hw => ?_
  obtain ⟨x, s, hs, hheld⟩ := hw
  rw [safe_tryCatch, safe_bind]
  refine safe_mono (fun r l w hw => ?_) (fun _ _ _ h => h.elim) (hfn x s l w hs hheld)
  rw [safe_bind]
  exact safe_mono (fun _ _ _ h => h) (fun _ _ _ h => h.elim) (hcommit l w hw)

/-! ### A create -/

def Housed (t : String) (w : Management) : Prop := w.namespaces t = true

theorem Housed.kept (h : Housed t w) (hmine : Mine i type id t k w) (hw : CredRely i w w') :
    Housed t w' := by
  rcases hw.namespaces t h with hthere | hnone
  · exact hthere
  · exact absurd rfl (hnone _ hmine.there)

theorem Housed.same (h : Housed t w) (hw : SameRows w w') : Housed t w' := hw.namespaces t h

section Create

theorem safe_forget {row : Option ℕ} (h : Holding i type id t k (Housed t) row row none w) :
    safe steadyManagement revoking i
      (fun _ _ w => Holding i type id t k (Housed t) none none none w) (fun _ _ _ => False)
      (row.elim (pure ()) fun old => do
        Managing.untrust k old
        Managing.deleteCredentials t k) l w := by
  have hX : ∀ w w', CredRely i w w' → Within i type id t k w → Housed t w → Housed t w' :=
    fun _ _ hw hwithin h => h.kept hwithin.toMine hw
  have hown : ∀ w w', SameRows w w' → w'.past = w.past → Housed t w → Housed t w' :=
    fun _ _ hw _ h => h.same hw
  cases row with
  | none => exact h
  | some old =>
    rw [Option.elim]
    refine safe_seq (safe_untrust hX hown (.inl rfl) h) fun _ l w hw => ?_
    exact safe_deleteCredentials hX hown (.inl rfl) hw

theorem safe_reissue {row : Option ℕ} (h : Holding i type id t k (Housed t) row row none w) :
    safe steadyManagement revoking i
      (fun _ _ w => ∃ fp, Holding i type id t k (Housed t) (some fp) (some fp) (some fp) w)
      (fun _ _ _ => False) (reissue t k row) l w := by
  have hX : ∀ w w', CredRely i w w' → Within i type id t k w → Housed t w → Housed t w' :=
    fun _ _ hw hwithin h => h.kept hwithin.toMine hw
  have hown : ∀ w w', SameRows w w' → w'.past = w.past → Housed t w → Housed t w' :=
    fun _ _ hw _ h => h.same hw
  refine safe_seq (safe_forget h) fun _ l w hw => ?_
  refine safe_seq (safe_trust hX hown hw) fun fp l w hw => ?_
  rw [safe_bind, safe_tryCatch]
  refine safe_mono (fun _ l w hw => ?_) (fun _ _ _ h => h.elim)
    (safe_applySecret hX hown (fun _ h => h) hw)
  exact safe_mono (fun _ _ _ hw => ⟨fp, hw⟩) (fun _ _ _ h => h) (safe_insertCredentials hX hown hw)

theorem safe_issue (hs : s = none ∨ s = x)
    (h : Holding i type id t k (Housed t) x x s w) :
    safe steadyManagement revoking i
      (fun _ _ w => ∃ fp, Holding i type id t k (Housed t) (some fp) (some fp) (some fp) w)
      (fun _ _ _ => False) (issue t k) l w := by
  have hX : ∀ w w', CredRely i w w' → Within i type id t k w → Housed t w → Housed t w' :=
    fun _ _ hw hwithin h => h.kept hwithin.toMine hw
  refine safe_seq (safe_selectCredentials hX h) fun row l w hw => ?_
  obtain ⟨rfl, hw⟩ := hw
  rw [safe_bind]
  cases row with
  | none =>
    -- Nothing was issued, and so there is no secret.
    have hsecret : s = none := hs.elim (fun h => h) fun h => h
    rw [hsecret] at hw
    exact safe_reissue hw
  | some old =>
    rw [Option.elim]
    refine safe_mono (fun there l w hw => ?_) (fun _ _ _ h => h) (safe_getSecret hX hw)
    obtain ⟨rfl, hw⟩ := hw
    rw [safe_when]
    rcases hs with rfl | rfl
    · exact safe_reissue hw
    · exact ⟨old, hw⟩

theorem safe_ensureCredentials (h : Mine i .create id t k w ∧ Free i w ∧ Housed t w) :
    safe steadyManagement revoking i
      (fun _ _ w => Mine i .create id t k w ∧ Free i w ∧ True) (fun _ _ _ => False)
      (ensureCredentials t k) l w := by
  have hX : ∀ w w', CredRely i w w' → Within i .create id t k w → Housed t w → Housed t w' :=
    fun _ _ hw hwithin h => h.kept hwithin.toMine hw
  refine safe_locked (X := Housed t)
    (J := fun w => ∃ fp, Holding i .create id t k (Housed t) (some fp) (some fp) (some fp) w)
    (fun _ _ hw hmine h => h.kept hmine hw) (fun _ _ hw _ h => h.same hw)
    (fun x s l w hs hw => safe_issue hs hw) ?_ ?_ ?_ (fun _ _ _ _ => trivial) h
  · rintro w w' hw ⟨fp, h⟩
    exact ⟨fp, h.kept hX hw⟩
  · rintro w ⟨fp, h⟩
    exact h.within
  · rintro w ⟨fp, h⟩ hinv
    -- The row it is issued for is its own.
    exact ⟨h.pair.settled (.inr rfl) fun _ => ⟨id, h.within.runs.open hinv⟩,
      fun _ => ⟨fp, h.pair.secret, (h.pair.cert fp).mpr rfl⟩⟩

end Create

/-! ### A delete -/

def Checked (id : String) (w : Management) : Prop := w.checked id = true

def Unneeded (id t k : String) (w : Management) : Prop := Checked id w ∧ NoPast t k w

theorem Unneeded.kept (h : Unneeded id t k w) (hwithin : Within i type id t k w)
    (hw : CredRely i w w') :
    Unneeded id t k w' :=
  ⟨hw.checked id h.1, h.2.kept (hw.pairs t k hwithin.held).1⟩

theorem Unneeded.same (h : Unneeded id t k w) (hw : SameRows w w') (hpast : w'.past = w.past) :
    Unneeded id t k w' := by
  refine ⟨?_, fun id' hopen => ?_⟩
  · unfold Checked
    rw [hw.checked]
    exact h.1
  · rw [hpast]
    exact h.2 id' (hw.open_iff.mp hopen)

section Delete

theorem mem_keys_of_any {p : K8sRow → Bool} (h : w.rows.any p = true) :
    ∃ r ∈ w.rows, p r = true ∧ (r.id, r.tenantId, r.clusterId) ∈ w.keys := by
  obtain ⟨r, hr, hp⟩ := any_eq_true.mp h
  exact ⟨r, hr, hp, mem_map_of_mem hr⟩

theorem safe_selectOthers (h : Holding i .delete id t k (NoCreate id) x x s w) :
    safe steadyManagement revoking i
      (fun others _ w => if others then
          Holding i .delete id t k (Checked id) x x s w ∧ ∃ id', Open id' t k w
        else Holding i .delete id t k (Unneeded id t k) x x s w)
      (fun _ _ _ => False) (Managing.selectOthers t k id) l w := by
  have hX : ∀ w w', CredRely i w w' → Within i .delete id t k w → NoCreate id w → NoCreate id w' :=
    fun _ _ hw hwithin h => hw.creates id hwithin.used h
  refine safe_call (c := K8sCall.selectOthers t k id)
    (J := Holding i .delete id t k (NoCreate id) x x s) (fun _ _ hw h => h.kept hX hw)
    (fun w o r hw hinv hok hr => ?_) h
  obtain rfl := reply_ok rfl hr
  have hfits := hw.within.fits_checked hinv hw.extra
  have hwithin : Within i .delete id t k { w with checked := update w.checked id true } :=
    ⟨⟨hw.within.runs, hw.within.there, hw.within.used⟩, hw.within.held, hw.within.only⟩
  have hpair : Pair t k x x s { w with checked := update w.checked id true } :=
    ⟨hw.pair.record, hw.pair.cert, hw.pair.secret⟩
  have hchecked : Checked id { w with checked := update w.checked id true } :=
    show update w.checked id true id = true from update_self _ _ _
  refine ⟨hfits.guar, hfits.inv, ?_⟩
  dsimp only
  split_ifs with hothers
  · refine ⟨⟨hwithin, hpair, hchecked⟩, ?_⟩
    obtain ⟨r, -, hr, hkey⟩ := mem_keys_of_any (hok hothers)
    have hthis : r.tenantId = t ∧ r.clusterId = k ∧ r.id ≠ id ∧ w.checked r.id = false := by
      simpa using hr
    refine ⟨r.id, ?_, ?_⟩
    · rw [hthis.1, hthis.2.1] at hkey
      exact hkey
    · show update w.checked id true r.id = false
      rw [Function.update_of_ne hthis.2.2.1]
      exact hthis.2.2.2
  · refine ⟨hwithin, hpair, hchecked, fun id' hopen => ?_⟩
    -- A row that is left would be another's.
    obtain ⟨r, hr, hkey⟩ := List.mem_map.mp (show (id', t, k) ∈ w.keys from hopen.there)
    have hid : r.id = id' := congrArg Prod.fst hkey
    have htenant : r.tenantId = t := congrArg (·.2.1) hkey
    have hcluster : r.clusterId = k := congrArg (·.2.2) hkey
    by_cases hsame : id' = id
    · have hunchecked := hopen.unchecked
      rw [hsame, show _ = true from hchecked] at hunchecked
      cases hunchecked
    · refine absurd (any_eq_true.mpr ⟨r, hr, ?_⟩) hothers
      simp [hid, htenant, hcluster, hsame]

theorem safe_revokeCredentials (h : Holding i type id t k (Unneeded id t k) x x s w) :
    safe steadyManagement revoking i
      (fun _ _ w => Holding i type id t k (Unneeded id t k) none none none w) (fun _ _ _ => False)
      (revokeCredentials t k) l w := by
  have hX : ∀ w w', CredRely i w w' → Within i type id t k w → Unneeded id t k w →
    Unneeded id t k w' :=
    fun _ _ hw hwithin h => h.kept hwithin hw
  have hown : ∀ w w', SameRows w w' → w'.past = w.past → Unneeded id t k w → Unneeded id t k w' :=
    fun _ _ hw hpast h => h.same hw hpast
  have hno : ∀ w, Unneeded id t k w → NoPast t k w := fun _ h => h.2
  refine safe_seq (safe_selectCredentials hX h) fun row l w hw => ?_
  obtain ⟨rfl, hw⟩ := hw
  rw [safe_bind]
  have huntrusted : safe steadyManagement revoking i
      (fun _ _ w => Holding i type id t k (Unneeded id t k) row none s w) (fun _ _ _ => False)
      (row.elim (pure ()) (Managing.untrust k)) l w := by
    cases row with
    | none => exact hw
    | some fp => exact safe_untrust hX hown (.inr hno) hw
  refine safe_mono (fun _ l w hw => ?_) (fun _ _ _ h => h) huntrusted
  refine safe_seq (safe_deleteSecret hX hown hno hw) fun _ l w hw => ?_
  exact safe_deleteCredentials hX hown (.inl rfl) hw

theorem safe_revokeUnlessUsed (h : Mine i .delete id t k w ∧ Free i w ∧ NoCreate id w) :
    safe steadyManagement revoking i
      (fun _ _ w => Mine i .delete id t k w ∧ Free i w ∧ Checked id w) (fun _ _ _ => False)
      (revokeUnlessUsed t k id) l w := by
  have hX : ∀ w w', CredRely i w w' → Within i .delete id t k w → Checked id w → Checked id w' :=
    fun _ _ hw _ h => hw.checked id h
  refine safe_locked (X := NoCreate id)
    (J := fun w => ∃ x s, (s = none ∨ s = x) ∧ (x ≠ none → ∃ id', Open id' t k w) ∧
      Holding i .delete id t k (Checked id) x x s w)
    (fun _ _ hw hmine h => hw.creates id hmine.used h) (fun _ _ hw _ h => hw.noCreate h)
    (fun x s l w hs hw => ?_) ?_ ?_ ?_ ?_ h
  · refine safe_seq (safe_selectOthers hw) fun others l w hw => ?_
    rw [safe_when]
    cases others with
    | true => exact ⟨x, s, hs, fun _ => hw.2, hw.1⟩
    | false =>
      refine safe_mono (fun _ l w hw => ?_) (fun _ _ _ h => h) (safe_revokeCredentials hw)
      exact ⟨none, none, .inl rfl, fun h => absurd rfl h, hw.within, hw.pair, hw.extra.1⟩
  · rintro w w' hw ⟨x, s, hs, hneeded, h⟩
    refine ⟨x, s, hs, fun hne => ?_, h.kept hX hw⟩
    obtain ⟨id', hopen⟩ := hneeded hne
    exact ⟨id', (hw.pairs t k h.within.held).1.opened id' hopen⟩
  · rintro w ⟨x, s, -, -, h⟩
    exact h.within
  · rintro w ⟨x, s, hs, hneeded, h⟩ -
    exact ⟨h.pair.settled hs hneeded, fun hcreate => (nomatch hcreate)⟩
  · rintro w w' ⟨x, s, -, -, h⟩ hw
    unfold Checked
    rw [hw.checked]
    exact h.extra

end Delete

/-! ### The jobs -/

section Jobs

variable {site : K8sSite} {job : String}

def Claimed (i : K8sProc) (type : K8sJobType) (id t k : String) (w : Management) : Prop :=
  Runs i type id t k w ∧ id ∈ w.used ∧ Free i w

theorem Claimed.kept (h : Claimed i type id t k w) (hw : CredRely i w w') :
    Claimed i type id t k w' :=
  ⟨hw.runs _ _ _ _ h.1, hw.used _ h.2.1, h.2.2.kept hw⟩

def Loaded (i : K8sProc) (type : K8sJobType) (id t k : String) (w : Management) : Prop :=
  Mine i type id t k w ∧ Free i w

theorem Loaded.kept (h : Loaded i type id t k w) (hw : CredRely i w w') : Loaded i type id t k w' :=
  ⟨h.1.kept hw, h.2.kept hw⟩

theorem maintains_quietly {J : Management → Prop} (hJ : ∀ w w', CredRely i w w' → J w → J w')
    (c : K8sCall)
    (hc : c.isIdle) :
    Maintains steadyManagement revoking i J (Handler.call c : Managing c.Answer) := by
  refine maintains_quiet hJ ?_
  cases c with
  | _ => first | exact hc | rfl

theorem safe_loadMine (h : Claimed i type id t k w) :
    safe steadyManagement revoking i
      (fun r _ w => (r.1.id, r.1.tenantId, r.1.clusterId) = (id, t, k) ∧ Loaded i type id t k w)
      (fun _ _ w => Claimed i type id t k w) (load id) l w := by
  refine safe_load (I := fun row w => (row.id, row.tenantId, row.clusterId) = (id, t, k) ∧
    Loaded i type id t k w) (fun row c hc => ?_) ?_ (fun _ w hw => ?_) (fun _ _ _ hw => hw)
  · exact maintains_quietly (fun w w' hw h => ⟨h.1, h.2.kept hw⟩) c hc
  · refine safe_call (c := K8sCall.selectRow id) (J := Claimed i type id t k)
      (fun _ _ hw h => h.kept hw) (fun w o r hw hinv _ hr => ?_) h
    have hfits := ((Same.refl w).fits (i := i) hinv).1
    obtain rfl := silent_ok rfl hr
    refine ⟨hfits.guar, hinv, hw, fun row hrow => ?_⟩
    replace hrow : w.rows.find? (·.id = id) = some row := hrow
    have hid : row.id = id := by simpa using List.find?_some hrow
    have hkey : (row.id, row.tenantId, row.clusterId) ∈ w.keys :=
      mem_map_of_mem (mem_of_find?_eq_some hrow)
    obtain ⟨hruns, hused, hfree⟩ := hw
    have hsame : (row.id, row.tenantId, row.clusterId) = (id, t, k) := by
      obtain ⟨j, hj, -, -, hrowId, htenant, hcluster, -⟩ := hruns
      have hof := hinv.1.jobRows j hj _ hkey (hid.trans hrowId.symm)
      rw [htenant, hcluster] at hof
      exact Prod.ext hid hof
    refine ⟨hsame, ⟨hruns, ?_, hused⟩, hfree⟩
    rw [hsame] at hkey
    exact hkey
  · exact ⟨hw.2.1.runs, hw.2.1.used, hw.2.2⟩

theorem safe_applyTenant (h : Loaded i type id t k w) :
    safe steadyManagement revoking i (fun _ _ w => Loaded i type id t k w ∧ Housed t w)
      (fun _ _ _ => False) (Managing.applyTenant t) l w := by
  refine safe_call (c := K8sCall.applyTenant t) (J := Loaded i type id t k)
    (fun _ _ hw h => h.kept hw) (fun w o r hw hinv _ hr => ?_) h
  have hsame : Same w r.2 := answer_same (i := i) (c := K8sCall.applyTenant t) rfl hr
  obtain ⟨hfits, hrely⟩ := hsame.fits (i := i) hinv
  obtain rfl := reply_ok rfl hr
  refine ⟨hfits.guar, hfits.inv, hw.kept hrely, ?_⟩
  show update w.namespaces t true t = true
  exact update_self _ _ _

theorem safe_createCluster {row : K8sRow} {project cluster : String} (htenant : row.tenantId = t)
    (hcluster : row.clusterId = k) (h : Loaded i .create id t k w) :
    safe steadyManagement revoking i (fun _ _ w => Free i w) (fun _ _ w => Free i w)
      (createCluster site row project cluster) l w := by
  have hJ : ∀ w w', CredRely i w w' → Loaded i .create id t k w → Loaded i .create id t k w' :=
    fun _ _ hw h => h.kept hw
  have hidle := maintains_quietly hJ
  have hfree : ∀ w, Loaded i .create id t k w → Free i w := fun _ h => h.2
  have hquiet {c : K8sCall} (hc : c.isQuiet) : Maintains steadyManagement revoking i
      (Loaded i .create id t k) (Handler.call c : Managing c.Answer) := maintains_quiet hJ hc
  unfold createCluster
  rw [safe_bind]
  refine (maintains_waitForPlacement hidle).safe h (fun _ l w hw => ?_) (fun _ _ w => hfree w)
  rw [safe_bind]
  refine (hquiet (c := .progress "namespace" row.tenantId) rfl).safe hw (fun _ l w hw => ?_)
    (fun _ _ w => hfree w)
  rw [safe_bind]
  refine (hquiet (c := .applyClass) rfl).safe hw (fun _ l w hw => ?_) (fun _ _ w => hfree w)
  rw [safe_bind, htenant]
  refine safe_mono (fun _ l w hw => ?_) (fun _ _ _ h => h.elim) (safe_applyTenant hw)
  -- The namespace stays as long as the row does.
  have hhoused : ∀ w w', CredRely i w w' → Loaded i .create id t k w ∧ Housed t w →
      Loaded i .create id t k w' ∧ Housed t w' :=
    fun _ _ hw h => ⟨h.1.kept hw, h.2.kept h.1.1 hw⟩
  rw [safe_bind]
  refine (maintains_quiet (c := .progress "credentials" _) hhoused rfl).safe hw (fun _ l w hw => ?_)
    (fun _ _ w hw => hw.1.2)
  rw [safe_bind, hcluster]
  refine safe_mono (fun _ l w hw => ?_) (fun _ _ _ h => h.elim)
    (safe_ensureCredentials ⟨hw.1.1, hw.1.2, hw.2⟩)
  have hrest : Maintains steadyManagement revoking i (Loaded i .create id t k) (do
      Managing.progress "cluster" (row.name ++ " on " ++
        endpointUrl row.endpointHost row.endpointPort)
      Managing.applyCluster row.id
      Managing.setStatus row.id .provisioning none
      Handler.when (lbIsInstance row.spec.loadBalancer) (forwardTo site row)
      Managing.progress "control-plane" "waiting until it is available"
      waitFor (controlPlaneNow row)
        (fun l => "The control plane of " ++ row.name ++ " did not become available in time" ++
          if l.why = "" then "" else " (" ++ l.why ++ ")")
        site.looks
      Managing.setStatus row.id .ready (some "")
      Handler.when row.spec.metallb.isSome (Managing.enqueueMetallb row.id)) := by
    refine (hquiet rfl).bind fun _ => (hquiet rfl).bind fun _ => (hquiet rfl).bind fun _ => ?_
    refine Maintains.bind (.when _ (maintains_forwardTo hidle)) fun _ => ?_
    refine (hquiet rfl).bind fun _ => ?_
    refine (maintains_waitFor hidle (maintains_controlPlaneNow hidle) _).bind fun _ => ?_
    exact (hquiet rfl).bind fun _ => .when _ (hquiet rfl)
  exact hrest.safe ⟨hw.1, hw.2.1⟩ (fun _ _ w => hfree w) (fun _ _ w => hfree w)

theorem maintains_free {c : K8sCall} (hc : c.isQuiet) :
    Maintains steadyManagement revoking i (Free i) (Handler.call c : Managing c.Answer) :=
  maintains_quiet (fun _ _ hw h => h.kept hw) hc

theorem safe_createJob (h : Claimed i .create id t k w) :
    safe steadyManagement revoking i (fun _ _ w => Free i w) (fun _ _ w => Free i w)
      (k8sCreateHandler site id) l w := by
  unfold k8sCreateHandler
  rw [safe_bind]
  refine safe_mono (fun r l w hr => ?_) (fun _ _ _ h => h.2.2) (safe_loadMine h)
  obtain ⟨row, project, cluster⟩ := r
  obtain ⟨hrow, hw⟩ := hr
  rw [safe_tryCatch]
  refine safe_mono (fun _ _ _ h => h) (fun e l w hw => ?_)
    (safe_createCluster (congrArg (·.2.1) hrow) (congrArg (·.2.2) hrow) hw)
  rw [safe_bind]
  exact (maintains_free (c := .setError row.id _) rfl).safe hw (fun _ _ _ h => h) (fun _ _ _ h => h)

def Stopped (i : K8sProc) (id t k : String) (w : Management) : Prop :=
  Mine i .delete id t k w ∧ Free i w ∧ NoCreate id w

theorem Stopped.kept (h : Stopped i id t k w) (hw : CredRely i w w') : Stopped i id t k w' :=
  ⟨h.1.kept hw, h.2.1.kept hw, hw.creates id h.1.used h.2.2⟩

theorem safe_selectCreates (h : Loaded i .delete id t k w) :
    safe steadyManagement revoking i
      (fun v _ w => Loaded i .delete id t k w ∧ (v.isSome → NoCreate id w))
      (fun _ _ w => Loaded i .delete id t k w) (gone (Managing.selectCreates id)) l w := by
  unfold gone
  rw [safe_bind]
  refine safe_call (c := K8sCall.selectCreates id) (J := Loaded i .delete id t k)
    (fun _ _ hw h => h.kept hw) (fun w o r hw hinv _ hr => ?_) h
  have hfits := ((Same.refl w).fits (i := i) hinv).1
  obtain rfl := silent_ok rfl hr
  refine ⟨hfits.guar, hinv, hw, fun hgone j hj htype hid => ?_⟩
  refine Bool.eq_false_iff.mpr fun hactive => ?_
  have hnone : ∀ j ∈ w.jobs, j.type = .create → j.active → ¬ j.k8sId = id := by simpa using hgone
  exact hnone j hj htype hactive hid

theorem safe_deleteRow (h : Mine i .delete id t k w ∧ Free i w ∧ Checked id w) :
    safe steadyManagement revoking i (fun _ _ w => Free i w) (fun _ _ w => Free i w)
      (Managing.deleteRow id) l w := by
  refine safe_call (c := K8sCall.deleteRow id)
    (J := fun w => Mine i .delete id t k w ∧ Free i w ∧ Checked id w)
    (fun _ _ hw h => ⟨h.1.kept hw, h.2.1.kept hw, hw.checked id h.2.2⟩)
    (fun w o r hw hinv _ hr => ?_) h
  obtain rfl := reply_ok rfl hr
  have hfits := hw.1.fits_deleteRow hinv hw.2.2
  exact ⟨hfits.guar, hfits.inv, hw.2.1⟩

theorem safe_selectLeft (h : Free i w) :
    safe steadyManagement revoking i
      (fun left _ w => Free i w ∧ (left = false → i ∈ w.looked t)) (fun _ _ w => Free i w)
      (Managing.selectLeft t) l w := by
  refine safe_call (c := K8sCall.selectLeft t) (J := Free i) (fun _ _ hw h => h.kept hw)
    (fun w o r hw hinv _ hr => ?_) h
  obtain rfl := reply_ok rfl hr
  split_ifs with hleft
  · have hfits := ((Same.refl w).fits (i := i) hinv).1
    refine ⟨hfits.guar, hinv, hw, fun hnone => ?_⟩
    rw [hleft] at hnone
    cases hnone
  · have hfits : Fits i w { w with looked := update w.looked t (i :: w.looked t) } := by
      refine fits_looked hinv fun key hkey htenant => hleft ?_
      obtain ⟨r, hr, rfl⟩ := List.mem_map.mp hkey
      exact any_eq_true.mpr ⟨r, hr, decide_eq_true htenant⟩
    refine ⟨hfits.guar, hfits.inv, hw, fun _ => ?_⟩
    show i ∈ update w.looked t (i :: w.looked t) t
    rw [update_self]
    exact mem_cons_self

theorem safe_deleteNamespace (h : Free i w ∧ i ∈ w.looked t) :
    safe steadyManagement revoking i (fun _ _ w => Free i w) (fun _ _ w => Free i w)
      (Managing.deleteNamespace t) l w := by
  refine safe_call (c := K8sCall.deleteNamespace t) (J := fun w => Free i w ∧ i ∈ w.looked t)
    (fun _ _ hw h => ⟨h.1.kept hw, hw.looked t h.2⟩) (fun w o r hw hinv _ hr => ?_) h
  obtain rfl := reply_ok rfl hr
  have hfits := fits_deleteNamespace hinv hw.2
  exact ⟨hfits.guar, hfits.inv, hw.1⟩

theorem safe_deleteOwned {row : K8sRow} {project cluster : String} (hid : row.id = id)
    (htenant : row.tenantId = t) (hcluster : row.clusterId = k) (h : Loaded i .delete id t k w) :
    safe steadyManagement revoking i (fun _ _ w => Free i w) (fun _ _ w => Free i w)
      (deleteOwned site row project cluster) l w := by
  have hJ : ∀ w w', CredRely i w w' → Stopped i id t k w → Stopped i id t k w' := fun _ _ hw h =>
    h.kept hw
  have hidle := maintains_quietly hJ
  have hfree : ∀ w, Stopped i id t k w → Free i w := fun _ h => h.2.1
  have hloaded := maintains_quietly (J := Loaded i .delete id t k) fun _ _ hw h => h.kept hw
  unfold deleteOwned
  rw [safe_bind, hid, htenant, hcluster]
  refine safe_mono (fun _ l w hw => ?_) (fun _ _ _ h => h.2)
    (safe_waitFor hloaded (fun l w hw => safe_selectCreates hw) _ h)
  have hstopped : Stopped i id t k w := ⟨hw.1.1, hw.1.2, hw.2⟩
  -- Everything up to the credentials leaves them alone.
  rw [safe_bind]
  refine (hidle (.progress "cluster" _) rfl).safe hstopped (fun _ l w hw => ?_)
    (fun _ _ w => hfree w)
  rw [safe_bind]
  refine (hidle (.deleteCluster id) rfl).safe hw (fun _ l w hw => ?_) (fun _ _ w => hfree w)
  rw [safe_bind]
  refine (maintains_waitFor hidle (maintains_gone (maintains_clusterThere hidle)) _).safe hw
    (fun _ l w hw => ?_) (fun _ _ w => hfree w)
  rw [safe_bind]
  refine (hidle (.progress "leftovers" _) rfl).safe hw (fun _ l w hw => ?_) (fun _ _ w => hfree w)
  rw [safe_bind]
  refine (hidle (.removeLeftovers id) rfl).safe hw (fun _ l w hw => ?_) (fun _ _ w => hfree w)
  rw [safe_bind]
  refine (Maintains.when _ (maintains_removePort hidle)).safe hw (fun _ l w hw => ?_)
    (fun _ _ w => hfree w)
  rw [safe_bind]
  refine (hidle (.progress "credentials" _) rfl).safe hw (fun _ l w hw => ?_) (fun _ _ w => hfree w)
  rw [safe_bind]
  refine safe_mono (fun _ l w hw => ?_) (fun _ _ _ h => h.elim) (safe_revokeUnlessUsed hw)
  refine safe_seq (safe_deleteRow hw) fun _ l w hw => ?_
  refine safe_seq (safe_selectLeft hw) fun left l w hw => ?_
  rw [safe_when]
  cases left with
  | true => exact hw.1
  | false => exact safe_deleteNamespace ⟨hw.1, hw.2 rfl⟩

theorem safe_deleteJob (h : Claimed i .delete id t k w) :
    safe steadyManagement revoking i (fun _ _ w => Free i w) (fun _ _ w => Free i w)
      (k8sDeleteHandler site id) l w := by
  unfold k8sDeleteHandler
  rw [safe_bind]
  refine safe_mono (fun r l w hr => ?_) (fun _ _ _ h => h.2.2) (safe_loadMine h)
  obtain ⟨row, project, cluster⟩ := r
  obtain ⟨hrow, hw⟩ := hr
  rw [safe_bind]
  have hmark := maintains_quiet (c := .setDeleting row.id) (J := Loaded i .delete id t k)
    (fun _ _ hw h => h.kept hw) rfl
  refine hmark.safe hw (fun _ l w hw => ?_) (fun _ _ _ h => h.2)
  exact safe_deleteOwned (congrArg Prod.fst hrow) (congrArg (·.2.1) hrow) (congrArg (·.2.2) hrow) hw

theorem safe_claimJob (h : Free (.job job) w) :
    safe steadyManagement revoking (.job job)
      (fun r _ w => ∃ t k, Claimed (.job job) r.1 r.2 t k w) (fun _ _ w => Free (.job job) w)
      (Managing.claim job) l w := by
  refine safe_call (c := K8sCall.claim job) (J := Free (.job job)) (fun _ _ hw h => h.kept hw)
    (fun w o r hw hinv _ hr => ?_) h
  obtain ⟨j, hj, rfl⟩ := map_eq_some_iff.mp hr
  have hmem : j ∈ w.jobs := mem_of_find?_eq_some hj
  have hfound : j.id = job ∧ j.state = .queued := by simpa using List.find?_some hj
  have hfits := fits_claimed hinv hmem hfound.1 hfound.2
  refine ⟨hfits.guar, hfits.inv, j.tenantId, j.clusterId, ?_, hinv.1.jobs_used j hmem, hw⟩
  refine ⟨{ j with state := .running }, ?_, by rw [hfound.1], rfl, rfl, rfl, rfl, rfl⟩
  show _ ∈ w.jobs.map _
  refine List.mem_map.mpr ⟨j, hmem, ?_⟩
  simp [hfound.1]

theorem maintains_ended {c : K8sCall} {f : K8sOutcome → K8sJob → K8sJob}
    (hof : ∀ o j, (f o j).of = j.of)
    (hended : ∀ o j, (f o j).active = false)
    (hcall : ∀ w o r, steadyManagement.answer (.job job) c w o =
      some r → r.2 = w.updateJobs (·.id = job) (f o)) :
    Maintains steadyManagement revoking (.job job) (Free (.job job))
      (Handler.call c : Managing c.Answer) := by
  refine .call (fun _ _ hw h => h.kept hw) fun w o r hw hinv _ hr => ?_
  rw [hcall w o r hr]
  have hfits := fits_ended hinv hw (hof o) (hended o)
  exact ⟨hfits.inv, hfits.guar, hw⟩

theorem maintains_fail :
    Maintains steadyManagement revoking (.job job) (Free (.job job)) (Managing.fail job) := by
  refine maintains_ended (c := .fail job)
    (f := fun o j => { j with state := if o.aborted then .cancelled else .failed }) (fun _ _ => rfl)
    (fun o j => ?_) fun w o r hr => ?_
  · cases ho : o.aborted <;> simp [K8sJob.active]
  · rw [reply_ok rfl hr]
    rfl

theorem maintains_succeed :
    Maintains steadyManagement revoking (.job job) (Free (.job job)) (Managing.succeed job) := by
  refine maintains_ended (c := .succeed job) (f := fun _ j => { j with state := .succeeded })
    (fun _ _ => rfl) (fun o j => by simp [K8sJob.active]) fun w o r hr => ?_
  rw [reply_ok rfl hr]

theorem safe_job (h : Free (.job job) w) :
    safe steadyManagement revoking (.job job) (fun _ _ _ => True) (fun _ _ _ => True)
      (runJob site job) l w := by
  unfold runJob
  rw [safe_bind]
  refine safe_mono (fun r l w hw => ?_) (fun _ _ _ _ => trivial) (safe_claimJob h)
  obtain ⟨t, k, hw⟩ := hw
  rw [safe_tryCatch, safe_bind]
  have hran : safe steadyManagement revoking (.job job) (fun _ _ w => Free (.job job) w)
      (fun _ _ w => Free (.job job) w) (handlerOf site r) l w := by
    unfold handlerOf
    cases hr : r.1 with
    | create =>
      rw [hr] at hw
      exact safe_createJob hw
    | delete =>
      rw [hr] at hw
      exact safe_deleteJob hw
  have hfail (e : JobError) (l : Looked) (w : Management) (hw : Free (.job job) w) :
      safe steadyManagement revoking (.job job) (fun _ _ _ => True) (fun _ _ _ => True)
        (Managing.fail job) l w :=
    maintains_fail.safe hw (fun _ _ _ _ => trivial) (fun _ _ _ _ => trivial)
  refine safe_mono (fun _ l w hw => ?_) hfail hran
  exact maintains_succeed.safe hw (fun _ _ _ _ => trivial) hfail

end Jobs

/-! ### The sync worker and the requests -/

theorem maintains_any {c : K8sCall} (hc : c.isQuiet) :
    Maintains steadyManagement revoking i (fun _ => True) (Handler.call c : Managing c.Answer) :=
  maintains_quiet (fun _ _ _ _ => trivial) hc

theorem maintains_syncing {rows : List K8sRow} :
    Maintains steadyManagement revoking i (fun _ => True) (syncRows rows) := by
  have hidle := maintains_quietly (i := i) (J := fun _ => True) fun _ _ _ _ => trivial
  induction rows with
  | nil => exact .pure ()
  | cons row rest ih =>
    refine (maintains_any rfl).bind fun stop => ?_
    split_ifs
    · exact .pure ()
    · refine Maintains.bind (.tryCatch ?_ fun _ => .pure ()) fun _ => ih
      refine (maintains_any rfl).bind fun cluster => (maintains_any rfl).bind fun machines => ?_
      exact (maintains_any rfl).bind fun _ => .when _ (maintains_retarget hidle)

theorem safe_deleteTx {row : K8sRow} (h : Named row w) :
    safe steadyManagement revoking i (fun _ _ _ => True) (fun _ _ _ => True)
      (Managing.deleteTx row) l w := by
  refine safe_call (c := K8sCall.deleteTx row) (J := Named row) (fun _ _ hw h => h.kept hw)
    (fun w o r hw hinv _ hr => ?_) h
  have hsame := ((Same.refl w).fits (i := i) hinv).1
  replace hr : (if w.jobs.any fun j => j.id = o.drawn then none
    else if w.jobs.any fun j => j.type = .delete ∧ j.active ∧ j.k8sId = row.id then
      some (.error (.api 409 "conflict" (row.name ++ " is already being deleted")), w)
    else w.reply (unfailing (.deleteTx row) o) ((), w.acceptDelete row o.drawn)) = some r := hr
  split_ifs at hr with hdrawn hfirst
  · obtain rfl := some.inj hr
    exact ⟨hsame.guar, hinv, trivial⟩
  · obtain rfl := reply_ok rfl hr
    have hfits : Fits i w (w.acceptDelete row o.drawn) := by
      refine fits_acceptDelete hinv hw (fun j hj hid => hdrawn ?_) fun j hj htype hactive hid =>
        hfirst ?_
      · exact any_eq_true.mpr ⟨j, hj, decide_eq_true hid⟩
      · exact any_eq_true.mpr ⟨j, hj, decide_eq_true ⟨htype, hactive, hid⟩⟩
    exact ⟨hfits.guar, hfits.inv, trivial⟩

theorem safe_deleteRequest :
    safe steadyManagement revoking i (fun _ _ _ => True) (fun _ _ _ => True)
      (deleteRequest id) l w := by
  unfold deleteRequest
  rw [safe_bind]
  refine safe_call (c := K8sCall.selectRow id) (J := fun _ => True) (fun _ _ _ _ => trivial)
    (fun w o r _ hinv _ hr => ?_) trivial
  have hsame := ((Same.refl w).fits (i := i) hinv).1
  obtain rfl := silent_ok rfl hr
  refine ⟨hsame.guar, hinv, ?_⟩
  show safe steadyManagement revoking i _ _ (Option.elim (w.row id) _ _) l w
  cases hrow : w.row id with
  | none => trivial
  | some row =>
    have hmem : row ∈ w.rows := mem_of_find?_eq_some hrow
    have hkey : (row.id, row.tenantId, row.clusterId) ∈ w.keys := mem_map_of_mem hmem
    have hnamed : Named row w :=
      ⟨hinv.1.keys_used _ hkey, fun key hkey' hid =>
        congrArg Prod.snd (hinv.1.rowIds key hkey' _ hkey hid)⟩
    rw [Option.elim, safe_bind]
    have hneed := maintains_quiet (i := i) (c := .need "k8s.delete") (J := Named row)
      (fun _ _ hw h => h.kept hw) rfl
    exact hneed.safe hnamed (fun _ l w hw => safe_deleteTx hw) (fun _ _ _ _ => trivial)

theorem safe_programs {site : K8sSite} {requests : K8sRequests} (h : Free i w) :
    safe steadyManagement revoking i (fun _ _ _ => True) (fun _ _ _ => True)
      (program site requests i) l w := by
  have hdone {m : Managing Unit} (hm : Maintains steadyManagement revoking i (fun _ => True) m) :
      safe steadyManagement revoking i (fun _ _ _ => True) (fun _ _ _ => True) m l w :=
    hm.safe trivial (fun _ _ _ h => h) (fun _ _ _ h => h)
  unfold program
  split
  · exact safe_job h
  · refine hdone ((maintains_any rfl).bind fun held => .when _ ?_)
    exact (maintains_any rfl).bind fun rows => maintains_syncing
  · refine hdone ((maintains_any rfl).bind fun row => ?_)
    cases row with
    | none => exact .throw _
    | some row => exact (maintains_any rfl).bind fun _ => (maintains_any rfl).bind fun _ => .pure ()
  · exact safe_deleteRequest

/-! ### Every run -/

theorem inv_empty : revoking.inv Management.empty := by
  refine ⟨⟨fun _ hj => (nomatch hj), fun _ hj => (nomatch hj), fun _ hk => (nomatch hk),
    fun _ hk => (nomatch hk), fun _ hj => (nomatch hj), fun _ h => (nomatch h), fun _ hj =>
      (nomatch hj),
    fun _ hj => (nomatch hj), fun _ h => absurd rfl h⟩, ?_⟩
  refine ⟨fun _ h => (nomatch h), fun _ h => (nomatch h), fun _ h => (nomatch h), fun t k _ => ?_,
    fun _ _ _ h => (nomatch h.there), fun _ _ _ h => (nomatch h)⟩
  exact ⟨fun _ h => (nomatch h), fun _ h => (nomatch h), fun _ h => (nomatch h), fun h =>
    absurd rfl h⟩

/-- No call fails. If a delete that looks for others finds none or one whose delete has not looked
yet, and no row comes between a delete's look for the tenant's rows and its removal of the
namespace, then: with no job active and no row, no certificate of the tenant is trusted on the
Incus cluster; and while a row's create has got past its credentials and its delete has not looked
yet, the certificate whose key is in the secret is trusted. -/
theorem certificates_while_needed {site : K8sSite} {requests : K8sRequests}
    {s : Procs K8sProc K8sCall K8sCall.Answer JobError Management (Except JobError Unit × Looked)}
    (hs : Run steadyManagement.step (okStep looksInTurn namespaceStays) (allPrograms site requests)
      s)
    (t k : String) :
    ((∀ j ∈ s.world.jobs, j.tenantId = t → j.clusterId = k → j.active = false) →
      (∀ r ∈ s.world.rows, ¬ (r.tenantId = t ∧ r.clusterId = k)) → ∀ fp,
        ⟨k, t, fp⟩ ∉ s.world.trusted) ∧
    ∀ r ∈ s.world.rows, r.tenantId = t → r.clusterId = k → s.world.past r.id = true →
      s.world.checked r.id = false →
      ∃ fp, s.world.secrets t k = some fp ∧ ⟨k, t, fp⟩ ∈ s.world.trusted := by
  have hsound : Team.Sound steadyManagement revoking (fun _ _ _ => True) s := by
    have hstart : Team.Sound steadyManagement revoking (fun _ _ _ => True)
      (allPrograms site requests) := by
      refine ⟨inv_empty, fun i => ?_⟩
      have hsafe : safe steadyManagement revoking i (fun _ _ _ => True) (fun _ _ _ => True)
          (program site requests i) ⟨none, ""⟩ Management.empty := safe_programs fun _ _ h =>
            (nomatch h)
      exact Prog.safe_mono (fun _ _ _ => trivial) hsafe
    exact Team.run_safe (P := revoking) compatible_revoking (fun _ _ _ _ _ _ => trivial) hstart hs
  obtain ⟨hinv, hcert⟩ := hsound.inv
  refine ⟨fun hjobs hrows fp hfp => ?_, fun r hr htenant hcluster hpast hchecked => ?_⟩
  · -- Nobody holds the lock, so what is trusted is recorded and needed.
    have hfree : s.world.holder t k = none := by
      refine eq_none_iff_forall_ne_some.mpr fun i hi => ?_
      obtain ⟨j, hj, -, htenant, hcluster, hstate⟩ := hcert.held t k i hi
      have hended := hjobs j hj htenant hcluster
      simp [K8sJob.active, hstate] at hended
    have hsettled := hcert.settled t k hfree
    obtain ⟨id, hopen⟩ := hsettled.needed (by rw [hsettled.recorded fp hfp]; exact some_ne_none fp)
    obtain ⟨r, hr, hkey⟩ := List.mem_map.mp hopen.there
    exact hrows r hr ⟨congrArg (·.2.1) hkey, congrArg (·.2.2) hkey⟩
  · refine hcert.secret t k r.id ⟨?_, hchecked⟩ hpast
    rw [← htenant, ← hcluster]
    exact mem_map_of_mem hr

/-! ### Clusters that are created and deleted -/

def secondCluster : K8sRow := { smallCluster with id := "k2", name := "second" }

def deleteEach : K8sRequests :=
  ⟨fun _ => ("k1", ⟨none, none, none⟩), fun n => if n = 0 then "k1" else "k2"⟩

def createCalls (job : String) (n : ℕ) : List (ProcAction K8sProc K8sOutcome (K8sRow × String)) :=
  List.replicate n (.call (.job job) { cluster := some ⟨true, ""⟩ })

def removeCalls (job : String) (n : ℕ) : List (ProcAction K8sProc K8sOutcome (K8sRow × String)) :=
  List.replicate n (.call (.job job) {})

def askCalls (n : ℕ) (job : String) : List (ProcAction K8sProc K8sOutcome (K8sRow × String)) :=
  [.call (.delete n) {}, .call (.delete n) {}, .call (.delete n) { drawn := job }]

def createdThenDeleted : List (ProcAction K8sProc K8sOutcome (K8sRow × String)) :=
  [.outside (smallCluster, "j1")] ++ createCalls "j1" 24 ++ askCalls 0 "j2"

/-- One cluster is created and deleted: its certificate is trusted while it is there, and no longer
after. -/
theorem certificate_comes_and_goes :
    (∃ s, Run steadyManagement.step (okStep looksInTurn namespaceStays)
      (allPrograms oneLook deleteEach) s ∧
      (∃ r ∈ s.world.rows, r.tenantId = "acme" ∧ r.clusterId = "lab" ∧ s.world.past r.id = true ∧
        s.world.checked r.id = false) ∧
      ∃ fp, s.world.secrets "acme" "lab" = some fp ∧ ⟨"lab", "acme", fp⟩ ∈ s.world.trusted) ∧
    ∃ s, Run steadyManagement.step (okStep looksInTurn namespaceStays)
      (allPrograms oneLook deleteEach) s ∧
      s.world.generated = 1 ∧ (∀ j ∈ s.world.jobs, j.active = false) ∧ s.world.rows = [] ∧
      ∀ fp, ⟨"lab", "acme", fp⟩ ∉ s.world.trusted := by
  constructor
  · have hrun : ∃ s, Run steadyManagement.step (okStep looksInTurn namespaceStays)
        (allPrograms oneLook deleteEach) s ∧ ∃ r ∈ s.world.rows, r.tenantId = "acme" ∧
          r.clusterId = "lab" ∧ s.world.past r.id = true ∧ s.world.checked r.id = false :=
      Run.exists_of_exec createdThenDeleted (by decide)
    obtain ⟨s, hs, r, hr, htenant, hcluster, hpast, hchecked⟩ := hrun
    refine ⟨s, hs, ⟨r, hr, htenant, hcluster, hpast, hchecked⟩, ?_⟩
    exact (certificates_while_needed hs "acme" "lab").2 r hr htenant hcluster hpast hchecked
  · have hrun : ∃ s, Run steadyManagement.step (okStep looksInTurn namespaceStays)
        (allPrograms oneLook deleteEach) s ∧ s.world.generated = 1 ∧
          (∀ j ∈ s.world.jobs, j.active = false) ∧ s.world.rows = [] :=
      Run.exists_of_exec (createdThenDeleted ++ removeCalls "j2" 26) (by decide)
    obtain ⟨s, hs, hone, hended, hrows⟩ := hrun
    refine ⟨s, hs, hone, hended, hrows, ?_⟩
    refine (certificates_while_needed hs "acme" "lab").1 (fun j hj _ _ => hended j hj) fun r hr =>
      ?_
    rw [hrows] at hr
    cases hr

/-- The certificate is revoked before the row goes; two deletes that see each other's row leave it
trusted; and a namespace that a delete found without rows goes with the secret of a cluster that
came since. -/
theorem certificates_off_their_rows :
    (∃ s, Run steadyManagement.step (okStep (fun _ _ _ => True) fun _ _ => True)
        (allPrograms oneLook deleteEach) s ∧
      (∃ r ∈ s.world.rows, r.tenantId = "acme" ∧ r.clusterId = "lab" ∧ s.world.past r.id = true) ∧
      s.world.trusted = []) ∧
    (∃ s, Run steadyManagement.step (okStep (fun _ _ _ => True) fun _ _ => True)
        (allPrograms oneLook deleteEach) s ∧
      (∀ j ∈ s.world.jobs, j.active = false) ∧ s.world.rows = [] ∧
      ∃ c ∈ s.world.trusted, c.clusterId = "lab" ∧ c.tenantId = "acme") ∧
    ∃ s, Run steadyManagement.step (okStep (fun _ _ _ => True) fun _ _ => True)
        (allPrograms oneLook deleteEach) s ∧
      (∃ r ∈ s.world.rows, r.tenantId = "acme" ∧ r.clusterId = "lab" ∧ s.world.past r.id = true ∧
        s.world.checked r.id = false) ∧ s.world.secrets "acme" "lab" = none := by
  refine ⟨?_, ?_, ?_⟩
  · exact Run.exists_of_exec (createdThenDeleted ++ removeCalls "j2" 22) (by decide)
  · -- Both look before either row is gone.
    exact Run.exists_of_exec
      ([.outside (smallCluster, "j1"), .outside (secondCluster, "j3")] ++ createCalls "j1" 24 ++
        createCalls "j3" 22 ++ askCalls 0 "j2" ++ askCalls 1 "j4" ++ removeCalls "j2" 18 ++
        removeCalls "j4" 18 ++ removeCalls "j2" 3 ++ removeCalls "j4" 4) (by decide)
  · exact Run.exists_of_exec
      (createdThenDeleted ++ removeCalls "j2" 24 ++ [.outside (secondCluster, "j3")] ++
        createCalls "j3" 16 ++ removeCalls "j2" 1) (by decide)

end IncusCloud.Kubernetes
