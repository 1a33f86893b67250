import IncusCloud.Tenants.Quota

/-!
# How far placements can grow past the quota

Each placement is offered all of the headroom at once. So one that grows takes at most the
headroom, two may take it twice, and in general the tenant exceeds its quota by at most the headroom
for each placement that grows beyond the first (`splitLimits_bounds_overshoot`); with three
placements that is more than was left (`three_take_it_thrice`).
-/

namespace IncusCloud.Tenants

/-- What a placement uses of a key; an unknown usage counts as none. -/
def amount (u : Option Usage) (k : QuotaKey) : ℕ := u.elim 0 (· k)

def grown (usages later : List (Option Usage)) (k : QuotaKey) : ℕ :=
  ((usages.zip later).filter fun x => amount x.1 k < amount x.2 k).length

def Within (later : List (Option Usage)) (limits : List Limits) : Prop :=
  List.Forall₂ (fun u (l : Limits) => ∀ k n, l k = some n → amount u k ≤ n) later limits

theorem grown_cons (u u' : Option Usage) (usages later : List (Option Usage)) (k : QuotaKey) :
    grown (u :: usages) (u' :: later) k = (if amount u k < amount u' k then 1 else 0) +
      grown usages later k := by
  unfold grown
  rw [List.zip_cons_cons, List.filter_cons]
  by_cases hgrown : amount u k < amount u' k
  · simp only [hgrown, decide_true, if_true, List.length_cons]
    omega
  · simp only [hgrown, decide_false, Bool.false_eq_true, if_false]
    omega

theorem sumUsage_le_of_grown {usages later : List (Option Usage)} {k : QuotaKey} {h : ℕ}
    (hle : List.Forall₂ (fun u' u => amount u' k ≤ amount u k + h) later usages) :
    sumUsage later k ≤ sumUsage usages k + grown usages later k * h := by
  induction hle with
  | nil => exact Nat.zero_le _
  | @cons u' u later usages hgrows _ ih =>
    have hcons : ∀ (u : Option Usage) us, sumUsage (u :: us) k = amount u k + sumUsage us k := fun _ _ => rfl
    rw [hcons, hcons, grown_cons]
    split_ifs with hgrown
    · rw [Nat.add_mul, Nat.one_mul]
      omega
    · rw [Nat.zero_add]
      omega

/-- What a placement may use: its own and the headroom. -/
def limitsOf (q : Quotas) (usages : List (Option Usage)) (u : Option Usage) : Limits := fun k =>
  (quotaBytes q k).map fun n => amount u k + (n - sumUsage usages k)

theorem splitLimits_eq (q : Quotas) (usages : List (Option Usage)) :
    splitLimits q usages = usages.map (limitsOf q usages) := rfl

theorem limitsOf_of_quota {q : Quotas} {k : QuotaKey} {n : ℕ} (hn : quotaBytes q k = some n)
    (usages : List (Option Usage)) (u : Option Usage) :
    limitsOf q usages u k = some (amount u k + (n - sumUsage usages k)) := by
  unfold limitsOf
  rw [hn]
  rfl

/-- **The split bounds the overshoot**: every limit is at least the usage, and the total comes to at
most the larger of the quota and the old total, and the headroom for each placement that grew beyond
the first. -/
theorem splitLimits_bounds_overshoot (q : Quotas) (usages later : List (Option Usage)) (k : QuotaKey) (n : ℕ)
    (hn : quotaBytes q k = some n) (hlater : Within later (splitLimits q usages)) :
    List.Forall₂ (fun u (l : Limits) => ∃ limit, l k = some limit ∧ amount u k ≤ limit)
      usages (splitLimits q usages) ∧
      sumUsage later k ≤ max n (sumUsage usages k) + (grown usages later k - 1) * (n - sumUsage usages k) ∧
        (grown usages later k ≤ 1 → sumUsage later k ≤ max n (sumUsage usages k)) := by
  have hgrows : List.Forall₂ (fun u' u => amount u' k ≤ amount u k + (n - sumUsage usages k))
    later usages := by
    have hwithin := hlater
    unfold Within at hwithin
    rw [splitLimits_eq, List.forall₂_map_right_iff] at hwithin
    apply hwithin.imp
    intro u' u hle
    exact hle k _ (limitsOf_of_quota hn usages u)
  have hsum := sumUsage_le_of_grown hgrows
  have hbound : sumUsage later k ≤
      max n (sumUsage usages k) + (grown usages later k - 1) * (n - sumUsage usages k) := by
    cases hg : grown usages later k with
    | zero =>
      rw [hg] at hsum
      omega
    | succ g =>
      -- The first that grew takes what the quota leaves.
      rw [hg, Nat.add_mul, Nat.one_mul] at hsum
      rw [Nat.add_sub_cancel]
      omega
  refine ⟨?_, hbound, fun hone => ?_⟩
  · rw [splitLimits_eq, List.forall₂_map_right_iff, List.forall₂_same]
    intro u _
    exact ⟨_, limitsOf_of_quota hn usages u, Nat.le_add_right _ _⟩
  · have hnone : grown usages later k - 1 = 0 := Nat.sub_eq_zero_of_le hone
    rw [hnone, Nat.zero_mul] at hbound
    exact hbound

def oneInstance : Quotas := fun k => if k = .instances then some 1 else none

def oneUsed : Option Usage := some fun k => if k = .instances then 1 else 0

theorem oneUsed_within {usages : List (Option Usage)} (hnone : sumUsage usages .instances = 0)
    (k : QuotaKey) (n : ℕ)
    (hk : limitsOf oneInstance usages none k = some n) : amount oneUsed k ≤ n := by
  cases k with
  | instances =>
    rw [limitsOf_of_quota (n := 1) rfl, hnone] at hk
    exact Nat.le_of_eq (Option.some.inj hk)
  | _ => exact Nat.zero_le n

/-- Of two placements one takes what is left. -/
theorem splitLimits_bounds_overshoot_one :
    Within [oneUsed, none] (splitLimits oneInstance [none, none]) ∧
      sumUsage [oneUsed, none] .instances ≤ 1 := by
  have hlater : Within [oneUsed, none] (splitLimits oneInstance [none, none]) :=
    .cons (oneUsed_within rfl) (.cons (fun _ n _ => Nat.zero_le n) .nil)
  exact ⟨hlater, (splitLimits_bounds_overshoot oneInstance [none, none] [oneUsed,
    none] .instances 1 rfl hlater).2.2
    (by decide)⟩

/-- Three placements each take the one instance that was left. -/
theorem three_take_it_thrice : ¬ ∀ (q : Quotas) (usages later : List (Option Usage)), usages ≠ [] →
    Within later (splitLimits q usages) → ∀ k n, quotaBytes q k = some n →
      sumUsage later k ≤ max n (sumUsage usages k) + (n - sumUsage usages k) := by
  intro h
  have hone : ∀ (k : QuotaKey) (n : ℕ), limitsOf oneInstance [none, none, none] none k = some n →
    amount oneUsed k ≤ n :=
    oneUsed_within rfl
  have hlater : Within [oneUsed, oneUsed, oneUsed] (splitLimits oneInstance [none, none, none]) :=
    .cons hone (.cons hone (.cons hone .nil))
  have hle := h oneInstance [none, none, none] [oneUsed, oneUsed, oneUsed]
    (List.cons_ne_nil _ _) hlater .instances 1 rfl
  exact absurd hle (by decide)

end IncusCloud.Tenants
