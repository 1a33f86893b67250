import IncusCloud.Reconcile.Store
import Mathlib.Data.Set.Basic

/-!
# What a difference reaches

`diffTuples` joins its two sides by a text key, which names one tuple where no user and no relation
holds a bar; so it writes what is desired and not there, and deletes what is managed, there and not
desired. Applied to what is there, that reaches the desired tuples and leaves those of others
alone.
-/

namespace IncusCloud.Reconcile

open Lib List
open String (toList_append)

/-! ### Keys -/

theorem key_injective {t u : Tuple} (ht : t.Barless) (hu : u.Barless) (h : key t = key u) : t = u := by
  have hlist := congrArg String.toList h
  simp only [key, toList_append, append_assoc] at hlist
  have hbar : ("|" : String).toList = ['|'] := rfl
  rw [hbar] at hlist
  obtain ⟨huser, hrest⟩ := append_sep_inj ht.user hu.user hlist
  obtain ⟨hrelation, hobject⟩ := append_sep_inj ht.relation hu.relation hrest
  cases t
  cases u
  simp only [Tuple.mk.injEq]
  exact ⟨String.ext huser, String.ext hrelation, String.ext hobject⟩

theorem mem_byKey {ts : List Tuple} {e : String × Tuple} (h : e ∈ byKey ts) :
    e.2 ∈ ts ∧ e.1 = key e.2 := OrdMap.mem_ofList_map h

section

variable {ts desired current : List Tuple}

theorem any_byKey (hts : ∀ t ∈ ts, t.Barless) {t : Tuple} (ht : t.Barless) :
    ((byKey ts).any fun e => e.1 = key t) = decide (t ∈ ts) := by
  rw [byKey, OrdMap.any_ofList_map, Bool.eq_iff_iff, any_eq_true, decide_eq_true_iff]
  constructor
  · rintro ⟨u, hu, hkey⟩
    rwa [← key_injective (hts u hu) ht (of_decide_eq_true hkey)]
  · exact fun h => ⟨t, h, decide_eq_true rfl⟩

theorem exists_mem_byKey (hts : ∀ t ∈ ts, t.Barless) {t : Tuple} (ht : t ∈ ts) : (key t, t) ∈ byKey ts := by
  have hany := any_byKey hts (hts t ht)
  rw [decide_eq_true ht, any_eq_true] at hany
  obtain ⟨e, he, hkey⟩ := hany
  obtain ⟨hmem, heq⟩ := mem_byKey he
  have hsame := key_injective (hts e.2 hmem) (hts t ht) (heq.symm.trans (of_decide_eq_true hkey))
  rw [← hsame, ← heq]
  exact he

theorem mem_writes (hd : ∀ t ∈ desired, t.Barless) (hc : ∀ t ∈ current, t.Barless) (t : Tuple) :
    t ∈ (diffTuples desired current).1 ↔ t ∈ desired ∧ t ∉ current := by
  constructor
  · intro h
    obtain ⟨e, he, rfl⟩ := List.mem_map.mp h
    obtain ⟨hmem, hnot⟩ := mem_filter.mp he
    obtain ⟨hin, hkey⟩ := mem_byKey hmem
    rw [hkey, any_byKey hc (hd e.2 hin)] at hnot
    exact ⟨hin, by simpa using hnot⟩
  · rintro ⟨hin, hnot⟩
    refine List.mem_map.mpr ⟨(key t, t), mem_filter.mpr ⟨exists_mem_byKey hd hin, ?_⟩, rfl⟩
    rw [any_byKey hc (hd t hin)]
    simpa using hnot

theorem mem_deletes (hd : ∀ t ∈ desired, t.Barless) (hc : ∀ t ∈ current, t.Barless) (t : Tuple) :
    t ∈ (diffTuples desired current).2 ↔ t ∈ current ∧ t ∉ desired ∧ isManaged t = true := by
  constructor
  · intro h
    obtain ⟨e, he, rfl⟩ := List.mem_map.mp h
    obtain ⟨hmem, hnot⟩ := mem_filter.mp he
    obtain ⟨hin, hkey⟩ := mem_byKey hmem
    rw [hkey, any_byKey hd (hc e.2 hin)] at hnot
    exact ⟨hin, by simpa using hnot⟩
  · rintro ⟨hin, hnot, hmanaged⟩
    refine List.mem_map.mpr ⟨(key t, t), mem_filter.mpr ⟨exists_mem_byKey hc hin, ?_⟩, rfl⟩
    rw [any_byKey hd (hc t hin)]
    simpa [hmanaged] using hnot

end

/-! ### What is desired is IncusCloud's own -/

def Own (ts : List Tuple) : Prop := ∀ t ∈ ts, isManaged t = true ∧ t.Barless

theorem bar_not_isHex : isHex '|' = false := by decide

theorem Hex.barless (h : Hex) : '|' ∉ h.text.toList := by
  intro hbar
  have hhex := h.valid '|' hbar
  rw [bar_not_isHex] at hhex
  cases hhex

theorem barless_uuid (u : Uuid) : '|' ∉ u.text.toList := by
  intro hbar
  obtain ⟨i, hi, hget⟩ := getElem_of_mem hbar
  have hall := (Bool.and_eq_true_iff.mp u.valid.1).2
  have hchar := all_eq_true.mp hall ('|', i)
    (mk_mem_zipIdx_iff_getElem?.mpr (List.getElem?_eq_some_iff.mpr ⟨hi, hget⟩))
  split_ifs at hchar
  · cases hchar
  · rw [bar_not_isHex] at hchar
    cases hchar

theorem isManaged_groupGrant (name relation object : String) :
    isManaged (groupGrant (grantPrefix ++ name) relation object) = true := by
  unfold isManaged groupGrant
  rw [Bool.or_eq_true, isPrefixOf_iff_prefix]
  refine .inl ⟨name.toList ++ "#member".toList, ?_⟩
  simp only [toList_append, append_assoc]

theorem isManaged_membership (subject name : String) :
    isManaged (membership subject (grantPrefix ++ name)) = true := by
  unfold isManaged membership
  rw [Bool.or_eq_true, isPrefixOf_iff_prefix, isPrefixOf_iff_prefix]
  refine .inr ⟨name.toList, ?_⟩
  simp only [toList_append, append_assoc]

theorem barless_groupGrant {group relation object : String} (hg : '|' ∉ group.toList)
    (hr : '|' ∉ relation.toList) : (groupGrant group relation object).Barless := by
  refine ⟨?_, hr⟩
  simp only [groupGrant, toList_append, mem_append, not_or]
  exact ⟨⟨by decide, hg⟩, by decide⟩

theorem barless_membership {subject group : String} (hs : '|' ∉ subject.toList) :
    (membership subject group).Barless := by
  refine ⟨?_, by show '|' ∉ "member".toList; decide⟩
  simp only [membership, toList_append, mem_append, not_or]
  exact ⟨by decide, hs⟩

theorem own_append {ts us : List Tuple} (ht : Own ts) (hu : Own us) : Own (ts ++ us) := fun t h =>
  (mem_append.mp h).elim (ht t) (hu t)

theorem own_tenantGrants (p : Uuid × String) :
    Own (projectRelation.map fun r =>
      groupGrant (tenantGroup p.1.text r.1) r.2 ("project:" ++ p.2)) := by
  intro t ht
  obtain ⟨r, hr, rfl⟩ := List.mem_map.mp ht
  have hgroup : tenantGroup p.1.text r.1 = grantPrefix ++ ("tenant-" ++ p.1.text ++ "-" ++ r.1) := by
    simp only [tenantGroup, String.append_assoc]
  have hroles : ∀ r ∈ projectRelation, '|' ∉ r.1.toList ∧ '|' ∉ r.2.toList := by decide
  have hrole := hroles r hr
  rw [hgroup]
  refine ⟨isManaged_groupGrant _ _ _, barless_groupGrant ?_ hrole.2⟩
  simp only [toList_append, mem_append, not_or]
  exact ⟨by decide, ⟨⟨by decide, barless_uuid p.1⟩, by decide⟩, hrole.1⟩

theorem own_membership {subject name : String} (hs : '|' ∉ subject.toList) :
    isManaged (membership subject (grantPrefix ++ name)) = true ∧
      (membership subject (grantPrefix ++ name)).Barless :=
  ⟨isManaged_membership _ _, barless_membership hs⟩

theorem own_platformGrants :
    Own (platformRoles.map fun role => groupGrant (platformGroup role) role serverObject) := by
  unfold Own
  decide

theorem own_aclTuples (sha : String → Hex) {acl : List (String × Grant)}
    (hacl : ∀ a ∈ acl, '|' ∉ a.1.toList ∧ '|' ∉ a.2.relation.toList) : Own (aclTuples sha acl) := by
  have hgroup : ∀ relation object, aclGroup sha relation object =
      grantPrefix ++ ("acl-" ++ (sha (relation ++ "|" ++ object)).text) := fun relation object => by
    simp only [aclGroup, String.append_assoc]
  suffices hgen : ∀ f : List Tuple × List String → String × Grant → List Tuple × List String,
      (∀ s a, (f s a).1 = s.1 ++ (if aclGroup sha a.2.relation a.2.object ∈ s.2 then []
        else [groupGrant (aclGroup sha a.2.relation a.2.object) a.2.relation a.2.object]) ++
          [membership a.1 (aclGroup sha a.2.relation a.2.object)]) →
      ∀ s : List Tuple × List String, Own s.1 → Own (acl.foldl f s).1 by
    exact hgen _ (fun _ _ => rfl) ([], []) (by simp [Own])
  intro f hf
  induction acl with
  | nil => exact fun s hs => hs
  | cons a acl ih =>
    intro s hs
    obtain ⟨⟨hsubject, hrelation⟩, htail⟩ := forall_mem_cons.mp hacl
    refine ih htail (f s a) (hf s a ▸ own_append (own_append hs ?_) ?_)
    · split_ifs
      · simp [Own]
      · intro t ht
        obtain rfl := mem_singleton.mp ht
        rw [hgroup]
        refine ⟨isManaged_groupGrant _ _ _, barless_groupGrant ?_ hrelation⟩
        simp only [toList_append, mem_append, not_or]
        exact ⟨by decide, by decide, Hex.barless _⟩
    · intro t ht
      obtain rfl := mem_singleton.mp ht
      rw [hgroup]
      exact own_membership hsubject

theorem own_desiredGrants (sha : String → Hex) (f : GrantFacts) : Own (desiredGrants sha f) := by
  refine own_append (own_append (own_append (own_append ?_ ?_) own_platformGrants) ?_)
    (own_aclTuples sha f.acl_barless)
  · intro t ht
    obtain ⟨p, -, ht⟩ := mem_flatMap.mp ht
    exact own_tenantGrants p t ht
  · intro t ht
    obtain ⟨m, hm, rfl⟩ := List.mem_map.mp ht
    have hgroup : tenantGroup m.1.text m.2.2 = grantPrefix ++ ("tenant-" ++ m.1.text ++ "-" ++ m.2.2) := by
      simp only [tenantGroup, String.append_assoc]
    rw [hgroup]
    exact own_membership (f.members_barless m (mem_of_mem_filter hm))
  · intro t ht
    obtain ⟨m, hm, rfl⟩ := List.mem_map.mp ht
    have hgroup : platformGroup m.2 = grantPrefix ++ ("platform-" ++ m.2) := by
      simp only [platformGroup, String.append_assoc]
    rw [hgroup]
    exact own_membership (f.platform_barless m (mem_of_mem_filter hm))

/-! ### The difference applied -/

/-- What a store with these tuples holds after the writes and the deletes. -/
def applyDiff (current : List Tuple) (d : List Tuple × List Tuple) : Set Tuple :=
  {t | t ∈ d.1 ∨ t ∈ current ∧ t ∉ d.2}

def managed : Set Tuple := {t | isManaged t = true}

theorem mem_applyDiff {desired current : List Tuple} (hd : ∀ t ∈ desired, t.Barless)
    (hc : ∀ t ∈ current, t.Barless) (t : Tuple) :
    t ∈ applyDiff current (diffTuples desired current) ↔ t ∈ desired ∨ t ∈ current ∧ ¬ isManaged t = true := by
  show t ∈ (diffTuples desired current).1 ∨ t ∈ current ∧ t ∉ (diffTuples desired current).2 ↔ _
  rw [mem_writes hd hc, mem_deletes hd hc]
  tauto

theorem diffTuples_eq_nil {desired current : List Tuple} (hd : ∀ t ∈ desired, t.Barless)
    (hc : ∀ t ∈ current, t.Barless) (hsub : ∀ t ∈ desired, t ∈ current)
    (hmanaged : ∀ t ∈ current, isManaged t = true → t ∈ desired) : diffTuples desired current = ([], []) := by
  have hwrites : (diffTuples desired current).1 = [] := by
    apply eq_nil_iff_forall_not_mem.mpr
    intro t ht
    obtain ⟨hin, hnot⟩ := (mem_writes hd hc t).mp ht
    exact hnot (hsub t hin)
  have hdeletes : (diffTuples desired current).2 = [] := by
    apply eq_nil_iff_forall_not_mem.mpr
    intro t ht
    obtain ⟨hin, hnot, hm⟩ := (mem_deletes hd hc t).mp ht
    exact hnot (hmanaged t hin hm)
  exact Prod.ext hwrites hdeletes

/-- The difference reaches the desired managed tuples and leaves the others as they are, all that is
desired is managed, and a second difference is empty, however the store lists what it then holds. -/
theorem diff_reaches_desired (sha : String → Hex) (facts : GrantFacts) (current : List Tuple)
    (hcurrent : ∀ t ∈ current, t.Barless) :
    let desired := desiredGrants sha facts
    let after := applyDiff current (diffTuples desired current)
    after ∩ managed = {t | t ∈ desired} ∩ managed ∧ after \ managed = {t | t ∈ current} \ managed ∧
      (∀ t ∈ desired, t ∈ managed) ∧
      ∀ result : List Tuple, {t | t ∈ result} = after → diffTuples desired result = ([], []) := by
  intro desired after
  have hown : Own desired := own_desiredGrants sha facts
  have hd : ∀ t ∈ desired, t.Barless := fun t ht => (hown t ht).2
  have hmem : ∀ t, t ∈ after ↔ t ∈ desired ∨ t ∈ current ∧ ¬ isManaged t = true := mem_applyDiff hd hcurrent
  refine ⟨?_, ?_, fun t ht => (hown t ht).1, ?_⟩
  · ext t
    show t ∈ after ∧ isManaged t = true ↔ t ∈ desired ∧ isManaged t = true
    rw [hmem]
    tauto
  · ext t
    have hnot : t ∈ desired → isManaged t = true := fun ht => (hown t ht).1
    show t ∈ after ∧ ¬ isManaged t = true ↔ t ∈ current ∧ ¬ isManaged t = true
    rw [hmem]
    tauto
  · intro result hresult
    have hin : ∀ t, t ∈ result ↔ t ∈ desired ∨ t ∈ current ∧ ¬ isManaged t = true := fun t =>
      (Set.ext_iff.mp hresult t).trans (hmem t)
    apply diffTuples_eq_nil hd
    · intro t ht
      rcases (hin t).mp ht with ht | ht
      · exact hd t ht
      · exact hcurrent t ht.1
    · exact fun t ht => (hin t).mpr (.inl ht)
    · intro t ht hm
      rcases (hin t).mp ht with ht | ht
      · exact ht
      · exact absurd hm ht.2

def revoked : Tuple := membership "u1" (platformGroup "admin")

def incusOwn : Tuple := ⟨"user:u2", "viewer", serverObject⟩

def noHex : Hex := ⟨"", nofun⟩

def noFacts : GrantFacts := ⟨[], [], [], [], nofun, nofun, nofun⟩

def noGrants : List Tuple := desiredGrants (fun _ => noHex) noFacts

/-- A membership goes, though it is listed twice, and Incus's tuple stays. -/
theorem diff_reaches_desired_revoked :
    revoked ∉ applyDiff [revoked, incusOwn, revoked] (diffTuples noGrants [revoked, incusOwn, revoked]) ∧
      incusOwn ∈ applyDiff [revoked, incusOwn, revoked] (diffTuples noGrants [revoked, incusOwn, revoked]) := by
  obtain ⟨hmanaged, hothers, -⟩ := diff_reaches_desired (fun _ => noHex) noFacts
    [revoked, incusOwn, revoked] (by decide)
  constructor
  · intro h
    have hm : isManaged revoked = true := by decide
    have hgone : revoked ∉ noGrants := by decide
    exact hgone ((Set.ext_iff.mp hmanaged revoked).mp ⟨h, hm⟩).1
  · have hm : ¬ isManaged incusOwn = true := by decide
    have hthere : incusOwn ∈ [revoked, incusOwn, revoked] := by simp
    exact ((Set.ext_iff.mp hothers incusOwn).mpr ⟨hthere, hm⟩).1

end IncusCloud.Reconcile
