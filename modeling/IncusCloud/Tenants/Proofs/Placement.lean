import IncusCloud.Lib.Grouping
import IncusCloud.Tenants.Placement

/-!
# A create goes to the best of its placements

The stages of the pool come to one filter of the candidates. The first of a sorted list is the
least of it, and the share that is left is below zero exactly where the memory is too small.
-/

open List

namespace IncusCloud.Tenants
open Lib
variable {L : Collation} {candidates pool : List Candidate} {memory : ℕ} {clusterId : Option String}
  {labels : OrdMap String String} {c pick : Candidate} {reason : String}

/-! ### The share that is left -/

theorem Candidate.after_nonneg_iff (hknown : 0 < c.memoryTotal) :
    0 ≤ c.after memory ↔ c.memoryUsed + memory ≤ c.memoryTotal := by
  unfold after
  split_ifs with hfits
  · refine iff_of_true ?_ hfits
    rcases Nat.eq_zero_or_pos (c.memoryTotal - c.memoryUsed - memory) with hzero | hpos
    · rw [hzero]
      exact le_of_eq (by simp [Double.nearest])
    · exact (Double.nearest_pos hpos hknown c.total_lt.le (by decide)).le
  · have hover := Double.nearest_pos (show 0 < c.memoryUsed + memory - c.memoryTotal by omega)
      hknown c.total_lt.le
      (by decide)
    exact iff_of_false (not_le.mpr (neg_neg_of_pos hover)) hfits

theorem byName_trans (a b c : Candidate) (hab : byName L a b = true) (hbc : byName L b c = true) :
    byName L a c = true :=
  decide_eq_true (L.trans (of_decide_eq_true hab) (of_decide_eq_true hbc))

theorem byName_total (a b : Candidate) : byName L a b = true ∨ byName L b a = true :=
  (L.total a.clusterName b.clusterName).imp decide_eq_true decide_eq_true

theorem freerFirst_iff {a b : Candidate} : freerFirst L memory a b = true ↔
    b.after memory < a.after memory ∨ a.after memory = b.after memory ∧ byName L a b = true := by
  unfold freerFirst
  split_ifs with h
  · simp [h]
  · simp [h]

theorem freerFirst_trans (a b c : Candidate) (hab : freerFirst L memory a b = true)
    (hbc : freerFirst L memory b c = true) : freerFirst L memory a c = true := by
  rw [freerFirst_iff] at *
  rcases hab with hab | ⟨hab, hname⟩
  · rcases hbc with hbc | ⟨hbc, -⟩
    · exact .inl (hbc.trans hab)
    · exact .inl (hbc ▸ hab)
  · rcases hbc with hbc | ⟨hbc, hname'⟩
    · exact .inl (hab ▸ hbc)
    · exact .inr ⟨hab.trans hbc, byName_trans a b c hname hname'⟩

theorem freerFirst_total (a b : Candidate) : freerFirst L memory a b = true ∨
    freerFirst L memory b a = true := by
  simp only [freerFirst_iff]
  rcases lt_trichotomy (a.after memory) (b.after memory) with h | h | h
  · exact .inr (.inl h)
  · exact (byName_total a b).imp (fun hname => .inr ⟨h, hname⟩) fun hname => .inr ⟨h.symm, hname⟩
  · exact .inl (.inl h)

/-! ### The pool -/

/-- The placements that a request leaves to choose from. -/
def Candidate.suitable (clusterId : Option String) (labels : OrdMap String String) (c : Candidate) : Bool :=
  c.matchesAll labels && ((clusterId.filter (· ≠ "")).all (c.clusterId = ·) && c.usable)

theorem unlessEmpty_withLabels (reason : String) (pool : List Candidate) (labels : OrdMap String String) :
    ∃ e, (unlessEmpty reason pool).bind (withLabels · labels) =
      unlessEmpty e (pool.filter (·.matchesAll labels)) := by
  by_cases hpool : pool = []
  · exact ⟨reason, by simp [hpool, unlessEmpty, Except.bind]⟩
  · by_cases hlabels : labels = []
    · exact ⟨reason, by simp [hpool, hlabels, unlessEmpty, Except.bind, withLabels, Candidate.matchesAll]⟩
    · exact ⟨_, by simp [hpool, hlabels, unlessEmpty, Except.bind, withLabels]; rfl⟩

theorem poolOf_eq (candidates : List Candidate) (clusterId : Option String) (labels : OrdMap String String) :
    ∃ e, poolOf candidates clusterId labels =
      unlessEmpty e (candidates.filter (·.suitable clusterId labels)) := by
  have hstages : candidates.filter (·.suitable clusterId labels) =
    ((candidates.filter (·.usable)).filter fun c =>
      (clusterId.filter (· ≠ "")).all (c.clusterId = ·)).filter (·.matchesAll labels) := by
    simp only [filter_filter, Candidate.suitable]
  rw [hstages]
  unfold poolOf
  cases clusterId.filter (· ≠ "") with
  | none =>
    simp only [Option.all_none, filter_true]
    exact unlessEmpty_withLabels _ _ labels
  | some id =>
    by_cases hnamed : (candidates.filter (·.usable)).filter (·.clusterId = id) = []
    · exact ⟨_, by simp only [onCluster, Option.all_some, hnamed]; rfl⟩
    · have hshown : onCluster (candidates.filter (·.usable)) (some id) =
          .ok ((candidates.filter (·.usable)).filter (·.clusterId = id)) := if_neg hnamed
      rw [hshown]
      simp only [Option.all_some]
      exact unlessEmpty_withLabels _ _ labels

/-! ### What is chosen -/

/-- The inventory knows that it has the memory. -/
def Candidate.Fits (c : Candidate) (memory : ℕ) : Prop := 0 < c.memoryTotal ∧
    c.memoryUsed + memory ≤ c.memoryTotal

/-- What is picked of a pool: with the largest share left, among equals the first by name; where
nothing has the memory, the first by name of what is not read yet. -/
structure Best (L : Collation) (memory : ℕ) (pool : List Candidate) (pick : Candidate) : Prop where
  mem : pick ∈ pool
  fits : ∀ c ∈ pool, c.Fits memory → pick.Fits memory ∧ c.after memory ≤ pick.after memory ∧
    (c.after memory = pick.after memory → L.localeCompare pick.clusterName c.clusterName ≤ 0)
  unread : ¬ pick.Fits memory → pick.memoryTotal = 0 ∧
    ∀ c ∈ pool, c.memoryTotal = 0 → L.localeCompare pick.clusterName c.clusterName ≤ 0

theorem best_of_freerFirst (hfirst : freerFirst L memory pick c = true) : c.after memory ≤ pick.after memory ∧
    (c.after memory = pick.after memory → L.localeCompare pick.clusterName c.clusterName ≤ 0) := by
  rcases freerFirst_iff.mp hfirst with hless | ⟨heq, hname⟩
  · exact ⟨hless.le, fun heq => absurd heq hless.ne⟩
  · exact ⟨heq.ge, fun _ => of_decide_eq_true hname⟩

theorem chooseFrom_spec (L : Collation) (memory : ℕ) (pool : List Candidate) :
    (∀ pick, chooseFrom L memory pool = .ok pick → Best L memory pool pick) ∧
      ((∃ reason, chooseFrom L memory pool = .error reason) ↔
        ∀ c ∈ pool, 0 < c.memoryTotal ∧ ¬ c.Fits memory) := by
  have hfit : ∀ c, c ∈ (pool.filter fun c => 0 < c.memoryTotal).filter (fun c => 0 ≤ c.after memory) ↔
      c ∈ pool ∧ c.Fits memory := by
    intro c
    simp only [mem_filter, decide_eq_true_eq, and_assoc, Candidate.Fits]
    exact and_congr_right' (and_congr_right Candidate.after_nonneg_iff)
  unfold chooseFrom
  dsimp only
  cases hfits : (((pool.filter fun c => 0 < c.memoryTotal).filter fun c => 0 ≤ c.after memory).mergeSort
      (freerFirst L memory)).head? with
  | some best =>
    obtain ⟨hbest, hleast⟩ := head?_mergeSort freerFirst_trans freerFirst_total hfits
    obtain ⟨hmem, hhas⟩ := (hfit best).mp hbest
    refine ⟨fun pick hpick => ?_, iff_of_false (by simp) fun h => (h best hmem).2 hhas⟩
    obtain rfl := Except.ok.inj hpick
    refine ⟨hmem, fun c hc hcfits => ⟨hhas, ?_⟩, fun hnot => absurd hhas hnot⟩
    exact best_of_freerFirst (hleast c ((hfit c).mpr ⟨hc, hcfits⟩))
  | none =>
    have hnone : ∀ c ∈ pool, ¬ c.Fits memory := by
      intro c hc hcfits
      have hin := (hfit c).mpr ⟨hc, hcfits⟩
      rw [eq_nil_of_head?_mergeSort hfits] at hin
      exact not_mem_nil hin
    cases hunknown : ((pool.filter fun c => c.memoryTotal = 0).mergeSort (byName L)).head? with
    | some first =>
      obtain ⟨hfirst, hleast⟩ := head?_mergeSort byName_trans byName_total hunknown
      obtain ⟨hmem, hzero⟩ := mem_filter.mp hfirst
      have hzero := of_decide_eq_true hzero
      refine ⟨fun pick hpick => ?_, iff_of_false (by simp) fun h => (h first hmem).1.ne' hzero⟩
      obtain rfl := Except.ok.inj hpick
      refine ⟨hmem, fun c hc hcfits => absurd hcfits (hnone c hc), fun _ => ⟨hzero, fun c hc hczero => ?_⟩⟩
      exact of_decide_eq_true (hleast c (mem_filter.mpr ⟨hc, decide_eq_true hczero⟩))
    | none =>
      refine ⟨by simp, iff_of_true ⟨_, rfl⟩ fun c hc => ⟨?_, hnone c hc⟩⟩
      have hzero := filter_eq_nil_iff.mp (eq_nil_of_head?_mergeSort hunknown) c hc
      exact Nat.pos_of_ne_zero fun h => hzero (decide_eq_true h)

/-- A create goes to the best of the placements that its request leaves: one that has the memory and
the largest share of it left, or one that the inventory has not read where none has the memory, the
first by name among equals. It is refused exactly where each of them is known to have too little. -/
theorem create_goes_to_best_placement (L : Collation) (candidates : List Candidate) (memory : ℕ)
    (clusterId : Option String) (labels : OrdMap String String) :
    (∀ pick, choose L candidates memory clusterId labels = .ok pick →
      Best L memory (candidates.filter (·.suitable clusterId labels)) pick) ∧
    ((∃ reason, choose L candidates memory clusterId labels = .error reason) ↔
      ∀ c ∈ candidates, c.suitable clusterId labels = true → 0 < c.memoryTotal ∧ ¬ c.Fits memory) := by
  obtain ⟨e, he⟩ := poolOf_eq candidates clusterId labels
  have hspec := chooseFrom_spec L memory (candidates.filter (·.suitable clusterId labels))
  simp only [mem_filter, and_imp] at hspec
  unfold choose
  rw [he]
  by_cases hempty : candidates.filter (·.suitable clusterId labels) = []
  · have hrefused : unlessEmpty e (candidates.filter (·.suitable clusterId labels)) = .error e :=
      if_pos hempty
    rw [hrefused]
    refine ⟨fun pick hpick => ?_, iff_of_true ⟨e, rfl⟩ fun c hc hs => ?_⟩
    · cases hpick
    · exact absurd hs (filter_eq_nil_iff.mp hempty c hc)
  · have hleft : unlessEmpty e (candidates.filter (·.suitable clusterId labels)) = .ok _ := if_neg hempty
    rw [hleft]
    exact hspec

theorem level_or_before_iff {a b : String} :
    (if a ≤ b then if b ≤ a then (0 : ℤ) else -1 else 1) ≤ 0 ↔ a ≤ b := by
  split_ifs with h <;> simp [h]

/-- The texts by their code points. -/
def byCodePoints : Collation where
  localeCompare a b := if a ≤ b then if b ≤ a then 0 else -1 else 1
  trans hab hbc := level_or_before_iff.mpr ((level_or_before_iff.mp hab).trans (level_or_before_iff.mp hbc))
  total a b := (le_total a b).imp level_or_before_iff.mpr level_or_before_iff.mpr

def candidateOf (name : String) (memoryUsed : ℕ) : Candidate :=
  ⟨name, name, "acme", "ready", "ready", [], 8, memoryUsed, by norm_num⟩

/-- Of two clusters with room the freer one, though its name comes later. -/
theorem create_goes_to_best_placement_freer :
    ∃ pick, choose byCodePoints [candidateOf "lab" 4, candidateOf "web" 0] 2 none [] = .ok pick ∧
      pick.clusterName = "web" := by
  obtain ⟨hbest, hrefused⟩ :=
    create_goes_to_best_placement byCodePoints [candidateOf "lab" 4, candidateOf "web" 0] 2 none []
  have hfits : (candidateOf "web" 0).Fits 2 := by constructor <;> decide
  cases hpick : choose byCodePoints [candidateOf "lab" 4, candidateOf "web" 0] 2 none [] with
  | error reason => exact absurd hfits (hrefused.mp ⟨reason, hpick⟩ _ (by simp) (by decide)).2
  | ok pick =>
    refine ⟨pick, rfl, ?_⟩
    have hpick := hbest pick hpick
    have hmost := (hpick.fits _ (by simp [Candidate.suitable]; decide) hfits).2.1
    have hcases : pick = candidateOf "lab" 4 ∨ pick = candidateOf "web" 0 := by
      simpa using (mem_filter.mp hpick.mem).1
    rcases hcases with rfl | rfl
    · exact absurd hmost (by decide +kernel)
    · rfl

end IncusCloud.Tenants
