import IncusCloud.Balancing.Suggest
import Mathlib.Tactic.Positivity

/-!
# Suggestions narrow the gap, and no more would

A move of `m` bytes lowers the gap of two clusters by `m * slope` (`Pair.gap_move`), so what does
not narrow it at one point narrows it at no later one (`not_narrowing_later`): the gap only falls.
That is why trying every candidate once, in any order, leaves none that would help
(`narrow_maximal`).
-/

namespace IncusCloud.Balancing

open Lib

namespace Pair

variable {p q : Pair} {m : ℚ}

/-- By how many percentage points a byte lowers the gap. -/
def slope (p : Pair) : ℚ := 100 / p.hot.memoryTotal + 100 / p.cool.memoryTotal

@[simp] theorem slope_move : (p.move m).slope = p.slope := rfl

theorem gap_move (p : Pair) (m : ℚ) : (p.move m).gap = p.gap - m * p.slope := by
  unfold gap move slope pct
  ring

@[simp] theorem undo_move (p : Pair) (m : ℚ) : (p.move m).undo m = p := by
  unfold undo move
  simp

def moves (p : Pair) (ms : List ℚ) : Pair := ms.foldl move p

@[simp] theorem moves_nil : p.moves [] = p := rfl

@[simp] theorem moves_cons (ms : List ℚ) : p.moves (m :: ms) = (p.move m).moves ms := rfl

theorem slope_moves (ms : List ℚ) : (p.moves ms).slope = p.slope := by
  induction ms generalizing p with
  | nil => rfl
  | cons m ms ih => exact ih

theorem gap_moves_le (hslope : 0 ≤ p.slope) {ms : List ℚ} (hms : ∀ m ∈ ms, 0 ≤ m) :
    (p.moves ms).gap ≤ p.gap := by
  induction ms generalizing p with
  | nil => exact le_refl _
  | cons m ms ih =>
    have hm : 0 ≤ m * p.slope := mul_nonneg (hms m List.mem_cons_self) hslope
    calc (p.moves (m :: ms)).gap = ((p.move m).moves ms).gap := rfl
      _ ≤ (p.move m).gap := ih hslope fun x hx => hms x (List.mem_cons_of_mem _ hx)
      _ = p.gap - m * p.slope := gap_move p m
      _ ≤ p.gap := by linarith

/-- What does not narrow the gap narrows no smaller one: of a positive gap it would have to take
less than twice as much. -/
theorem not_narrowing_later (hslope : 0 ≤ p.slope) (hm : 0 ≤ m) (h : |p.gap| ≤ |(p.move m).gap|)
    (hsame : q.slope = p.slope) (hle : q.gap ≤ p.gap) : |q.gap| ≤ |(q.move m).gap| := by
  rw [gap_move] at h ⊢
  rw [hsame]
  have hd : 0 ≤ m * p.slope := mul_nonneg hm hslope
  generalize m * p.slope = d at h hd
  have htwice : d = 0 ∨ 2 * p.gap ≤ d := by
    by_contra hno
    rw [not_or, not_le] at hno
    have hpos : 0 < d := lt_of_le_of_ne hd (Ne.symm hno.1)
    have hlow : |p.gap - d| < |p.gap| := by
      rw [abs_of_pos (show 0 < p.gap by linarith [hno.2])]
      rw [abs_lt]
      constructor <;> linarith [hno.2]
    exact absurd h (not_le.mpr hlow)
  rcases htwice with rfl | htwice
  · rw [sub_zero]
  · rw [abs_le]
    have habs : d - q.gap ≤ |q.gap - d| := by
      rw [abs_sub_comm]
      exact le_abs_self _
    constructor <;> linarith

end Pair

/-! ### The loop -/

def Narrows (threshold : ℚ) : Pair → List ℚ → Prop
  | _, [] => True
  | p, m :: ms => threshold < |p.gap| ∧ |(p.move m).gap| < |p.gap| ∧ Narrows threshold (p.move m) ms

theorem memory_nonneg (i : SuggestInstance) : 0 ≤ i.memory := NNRat.coe_nonneg _

variable (threshold : ℚ) (cs : List SuggestInstance)

theorem narrow_sublist (p : Pair) (n : ℕ) : (narrow threshold cs p n).Sublist cs := by
  fun_induction narrow threshold cs p n with
  | case1 => exact .slnil
  | case2 => exact List.nil_sublist _
  | case3 i rest p n hgo before moved hworse ih => exact ih.cons i
  | case4 i rest p n hgo before moved hbetter ih => exact ih.cons_cons i

theorem narrow_few (p : Pair) (n : ℕ) (hn : n ≤ perTenant) :
    n + (narrow threshold cs p n).length ≤ perTenant := by
  fun_induction narrow threshold cs p n with
  | case1 => exact hn
  | case2 => exact hn
  | case3 i rest p n hgo before moved hworse ih => exact ih hn
  | case4 i rest p n hgo before moved hbetter ih =>
    rw [List.length_cons]
    have hmore : n + 1 ≤ perTenant := by
      rw [not_or, not_le] at hgo
      exact hgo.1
    have := ih hmore
    omega

theorem narrow_narrows (p : Pair) (n : ℕ) :
    Narrows threshold p ((narrow threshold cs p n).map (·.memory)) := by
  fun_induction narrow threshold cs p n with
  | case1 => trivial
  | case2 => trivial
  | case3 i rest p n hgo before moved hworse ih =>
    have hundo : moved.undo i.memory = p := Pair.undo_move p i.memory
    rwa [hundo] at ih ⊢
  | case4 i rest p n hgo before moved hbetter ih =>
    rw [not_or, not_le, not_le] at hgo
    exact ⟨hgo.2, not_le.mp hbetter, ih⟩

theorem narrow_maximal (p : Pair) (n : ℕ) (hslope : 0 ≤ p.slope)
    (hn : n + (narrow threshold cs p n).length < perTenant) :
    let after := p.moves ((narrow threshold cs p n).map (·.memory))
    |after.gap| ≤ threshold ∨
      ∀ i ∈ cs, i ∉ narrow threshold cs p n → |after.gap| ≤ |(after.move i.memory).gap| := by
  fun_induction narrow threshold cs p n with
  | case1 => exact .inr nofun
  | case2 i rest p n hstop =>
    rcases hstop with hfull | hwithin
    · rw [List.length_nil] at hn
      omega
    · exact .inl hwithin
  | case3 i rest p n hgo before moved hworse ih =>
    have hundo : moved.undo i.memory = p := Pair.undo_move p i.memory
    rw [hundo] at ih hn ⊢
    rcases ih hslope hn with hwithin | hnone
    · exact .inl hwithin
    · refine .inr fun j hj hnot => ?_
      rcases List.mem_cons.mp hj with rfl | hj
      · -- It was tried at `p`, and the gap has only fallen since.
        refine Pair.not_narrowing_later hslope (memory_nonneg j) hworse (Pair.slope_moves _) ?_
        apply Pair.gap_moves_le hslope
        intro m hm
        obtain ⟨k, -, rfl⟩ := List.mem_map.mp hm
        exact memory_nonneg k
      · exact hnone j hj hnot
  | case4 i rest p n hgo before moved hbetter ih =>
    rw [List.length_cons] at hn
    rcases ih hslope (by omega) with hwithin | hnone
    · exact .inl hwithin
    · refine .inr fun j hj hnot => ?_
      rw [List.mem_cons, not_or] at hnot
      rcases List.mem_cons.mp hj with rfl | hj
      · exact absurd rfl hnot.1
      · exact hnone j hj hnot.2

/-! ### A tenant -/

structure Extremes (places : List (SuggestPlacement × SuggestCluster))
    (hotP coolP : SuggestPlacement × SuggestCluster) : Prop where
  hot_mem : hotP ∈ places
  cool_mem : coolP ∈ places
  hottest : ∀ p ∈ places, p.2.percent ≤ hotP.2.percent
  coolest : ∀ p ∈ places, coolP.2.percent ≤ p.2.percent

structure Movable (input : SuggestInput) (hotP : SuggestPlacement × SuggestCluster)
    (i : SuggestInstance) : Prop where
  mem : i ∈ input.instances
  cluster : i.clusterId = hotP.2.id
  project : i.project = hotP.1.project
  running : i.status = "Running"

/-- Moves that narrow the gap between two clusters, one after the other, as far as it goes. -/
structure Narrowing (input : SuggestInput) (hotP coolP : SuggestPlacement × SuggestCluster)
    (moved : List SuggestInstance) : Prop where
  distinct : (moved.map (·.id)).Nodup
  movable : ∀ i ∈ moved, Movable input hotP i
  narrows : Narrows input.threshold (.start hotP.2 coolP.2) (moved.map (·.memory))
  few : moved.length ≤ perTenant
  maximal : moved.length < perTenant →
    let after := (Pair.start hotP.2 coolP.2).moves (moved.map (·.memory))
    |after.gap| ≤ input.threshold ∨
      ∀ i, Movable input hotP i → i ∉ moved → |after.gap| ≤ |(after.move i.memory).gap|

variable (localeCompare : String → String → ℤ) {input : SuggestInput}
  {places : List (SuggestPlacement × SuggestCluster)} {hotP coolP : SuggestPlacement × SuggestCluster}

theorem notAfter_le {localeCompare : String → String → ℤ} {d : ℚ} {x y : String}
    (h : notAfter localeCompare d x y = true) : d ≤ 0 := by
  unfold notAfter at h
  split_ifs at h with hd
  · exact le_of_eq hd
  · exact le_of_lt (of_decide_eq_true h)

theorem le_of_not_notAfter {localeCompare : String → String → ℤ} {d : ℚ} {x y : String}
    (h : ¬ notAfter localeCompare d x y = true) : 0 ≤ d := by
  unfold notAfter at h
  split_ifs at h with hd
  · exact le_of_eq hd.symm
  · exact not_lt.mp fun hlt => h (decide_eq_true hlt)

theorem pairwise_ranked (places : List (SuggestPlacement × SuggestCluster)) :
    (ranked localeCompare places).Pairwise fun a b => b.2.percent ≤ a.2.percent := by
  apply pairwise_insertionSort
  · intro a b c hab hbc
    exact le_trans hbc hab
  · intro a b hab
    linarith [notAfter_le hab]
  · intro a b hab
    linarith [le_of_not_notAfter hab]

theorem mem_ranked {localeCompare : String → String → ℤ} {p : SuggestPlacement × SuggestCluster} :
    p ∈ ranked localeCompare places ↔ p ∈ places :=
  (List.perm_insertionSort _ places).mem_iff

theorem extremes_of_ranked (hhot : (ranked localeCompare places).head? = some hotP)
    (hcool : (ranked localeCompare places).getLast? = some coolP) : Extremes places hotP coolP := by
  have hsorted := pairwise_ranked localeCompare places
  constructor
  · exact mem_ranked.mp (List.mem_of_mem_head? hhot)
  · exact mem_ranked.mp (List.mem_of_getLast? hcool)
  · intro p hp
    obtain ⟨rest, hrest⟩ := List.head?_eq_some_iff.mp hhot
    have hmem : p ∈ ranked localeCompare places := mem_ranked.mpr hp
    rw [hrest] at hmem hsorted
    rcases List.mem_cons.mp hmem with rfl | hmem
    · exact le_refl _
    · exact (List.pairwise_cons.mp hsorted).1 p hmem
  · intro p hp
    obtain ⟨front, hfront⟩ := List.getLast?_eq_some_iff.mp hcool
    have hmem : p ∈ ranked localeCompare places := mem_ranked.mpr hp
    rw [hfront] at hmem hsorted
    rcases List.mem_append.mp hmem with hmem | hmem
    · exact (List.pairwise_append.mp hsorted).2.2 p hmem coolP (List.mem_singleton_self _)
    · rw [List.mem_singleton.mp hmem]

theorem memoryTotal_pos {p : SuggestPlacement × SuggestCluster} (hp : p ∈ input.placed) :
    0 < p.2.memoryTotal := by
  obtain ⟨a, -, ha⟩ := List.mem_filterMap.mp hp
  obtain ⟨c, hc, rfl⟩ := Option.map_eq_some_iff.mp ha
  obtain ⟨b, hb, heq⟩ := List.mem_map.mp (OrdMap.mem_of_mem_ofList (OrdMap.mem_of_get hc))
  obtain ⟨-, rfl⟩ := Prod.mk.inj heq
  exact of_decide_eq_true (List.mem_filter.mp hb).2

theorem mem_candidates {localeCompare : String → String → ℤ} {i : SuggestInstance} :
    i ∈ candidates localeCompare input hotP.1.project hotP.2 ↔ Movable input hotP i ∧ 0 < i.memory := by
  unfold candidates
  rw [(List.perm_insertionSort _ _).mem_iff, List.mem_filter]
  simp only [Bool.and_eq_true, decide_eq_true_eq]
  constructor
  · rintro ⟨hmem, ⟨⟨hcluster, hproject⟩, hrunning⟩, hpos⟩
    exact ⟨⟨hmem, hcluster, hproject, hrunning⟩, hpos⟩
  · rintro ⟨h, hpos⟩
    exact ⟨h.mem, ⟨⟨h.cluster, h.project⟩, h.running⟩, hpos⟩

theorem gap_start (hot cool : SuggestCluster) : (Pair.start hot cool).gap = hot.percent - cool.percent := rfl

theorem narrowing_between (hids : (input.instances.map (·.id)).Nodup) (hhot : 0 < hotP.2.memoryTotal)
    (hcool : 0 < coolP.2.memoryTotal) (hle : coolP.2.percent ≤ hotP.2.percent) (t : String) :
    ∃ moved, suggestBetween localeCompare input t hotP coolP = moved.map (suggestionOf t hotP coolP) ∧
      Narrowing input hotP coolP moved := by
  unfold suggestBetween
  dsimp only
  split_ifs with hgap
  · refine ⟨[], rfl, ⟨List.nodup_nil, nofun, trivial, Nat.zero_le _, fun _ => .inl ?_⟩⟩
    have hnonneg : 0 ≤ (Pair.start hotP.2 coolP.2).gap := by
      rw [gap_start]
      linarith
    exact (abs_of_nonneg hnonneg).trans_le hgap
  · have hslope : 0 ≤ (Pair.start hotP.2 coolP.2).slope := by
      show 0 ≤ 100 / hotP.2.memoryTotal + 100 / coolP.2.memoryTotal
      positivity
    set cs := candidates localeCompare input hotP.1.project hotP.2
    have hsub := narrow_sublist input.threshold cs (.start hotP.2 coolP.2) 0
    refine ⟨_, rfl, ⟨?_, ?_, narrow_narrows _ _ _ _, ?_, ?_⟩⟩
    · have hcandidates : (cs.map (·.id)).Nodup := by
        have hperm : cs.Perm (input.instances.filter _) := List.perm_insertionSort _ _
        rw [(hperm.map _).nodup_iff]
        exact hids.sublist (List.filter_sublist.map _)
      exact hcandidates.sublist (hsub.map _)
    · intro i hi
      exact (mem_candidates.mp (hsub.subset hi)).1
    · have hfew := narrow_few input.threshold cs (.start hotP.2 coolP.2) 0 (Nat.zero_le _)
      omega
    · intro hlt
      rcases narrow_maximal input.threshold cs (.start hotP.2 coolP.2)
        0 hslope (by omega) with hwithin | hnone
      · exact .inl hwithin
      · refine .inr fun i hi hnot => ?_
        rcases (memory_nonneg i).eq_or_lt with hzero | hpos
        · rw [Pair.gap_move, ← hzero, zero_mul, sub_zero]
        · exact hnone i (mem_candidates.mpr ⟨hi, hpos⟩) hnot

theorem narrowing_alone (hthreshold : 0 ≤ input.threshold) (p : SuggestPlacement × SuggestCluster) :
    Narrowing input p p [] := by
  refine ⟨List.nodup_nil, nofun, trivial, Nat.zero_le _, fun _ => .inl ?_⟩
  show |(Pair.start p.2 p.2).gap| ≤ _
  rwa [gap_start, sub_self, abs_zero]

def SuggestInput.placesOf (input : SuggestInput) (t : String) : List (SuggestPlacement × SuggestCluster) :=
  input.placed.filter fun p => p.1.tenantId = t

theorem suggestFor_spec (hthreshold : 0 ≤ input.threshold)
    (hids : (input.instances.map (·.id)).Nodup) (t : String)
    (hplaces : places ≠ []) (hpos : ∀ p ∈ places, 0 < p.2.memoryTotal) :
    ∃ hotP coolP moved, Extremes places hotP coolP ∧
      suggestFor localeCompare input t places = moved.map (suggestionOf t hotP coolP) ∧
      Narrowing input hotP coolP moved := by
  unfold suggestFor
  split_ifs with hfew
  · obtain ⟨p, rfl⟩ : ∃ p, places = [p] := by
      apply List.length_eq_one_iff.mp
      have := List.length_pos_iff.mpr hplaces
      omega
    refine ⟨p, p, [], ⟨List.mem_singleton_self p, List.mem_singleton_self p, ?_, ?_⟩, rfl,
      narrowing_alone hthreshold p⟩
    · intro q hq
      rw [List.mem_singleton.mp hq]
    · intro q hq
      rw [List.mem_singleton.mp hq]
  · have hranked : ranked localeCompare places ≠ [] := by
      intro hnil
      obtain ⟨p, hp⟩ := List.exists_mem_of_ne_nil _ hplaces
      have hmem : p ∈ ranked localeCompare places := mem_ranked.mpr hp
      rw [hnil] at hmem
      cases hmem
    have hhot := List.head?_eq_some_head hranked
    have hcool := List.getLast?_eq_some_getLast hranked
    rw [hhot, hcool]
    have hext := extremes_of_ranked localeCompare hhot hcool
    obtain ⟨moved, hmoved, hnarrow⟩ := narrowing_between localeCompare hids (hpos _ hext.hot_mem)
      (hpos _ hext.cool_mem) (hext.coolest _ hext.hot_mem) t
    exact ⟨_, _, moved, hext, hmoved, hnarrow⟩

theorem tenantId_suggestFor (e : String × List (SuggestPlacement × SuggestCluster)) :
    ∀ s ∈ suggestFor localeCompare input e.1 e.2, s.tenantId = e.1 := by
  intro s hs
  unfold suggestFor at hs
  split_ifs at hs
  · cases hs
  · split at hs
    · unfold suggestBetween at hs
      dsimp only at hs
      split_ifs at hs
      · cases hs
      · obtain ⟨i, -, rfl⟩ := List.mem_map.mp hs
        rfl
    · cases hs

theorem suggest_filter (t : String) :
    (suggest localeCompare input).filter (fun s => s.tenantId = t) =
      if input.placesOf t = [] then [] else suggestFor localeCompare input t (input.placesOf t) := by
  have hperm := List.perm_insertionSort (fun a b => localeCompare a.1 b.1 ≤ 0) (byTenant input)
  have hnodup : ((byTenant input).map (·.1)).Nodup := OrdMap.nodup_keys_group _ _
  have hsorted := (hperm.map (·.1)).nodup_iff.mpr hnodup
  unfold suggest
  rw [OrdMap.filter_flatMap hsorted (fun e => tenantId_suggestFor localeCompare e) t,
    OrdMap.get_perm hperm hsorted]
  unfold byTenant
  rw [OrdMap.get_group]
  show Option.elim (if input.placesOf t = [] then none else some (input.placesOf t)) _ _ = _
  split_ifs <;> rfl

/-- What the suggestions for a tenant are: none where it has no placement on a cluster with memory,
and otherwise moves from its hottest to its coolest cluster that narrow the gap as far as it goes. -/
def MaximallyNarrowed (localeCompare : String → String → ℤ) (input : SuggestInput) (t : String) : Prop :=
  let suggested := (suggest localeCompare input).filter fun s => s.tenantId = t
  (input.placesOf t = [] → suggested = []) ∧
    (input.placesOf t ≠ [] → ∃ hotP coolP moved, Extremes (input.placesOf t) hotP coolP ∧
      suggested = moved.map (suggestionOf t hotP coolP) ∧ Narrowing input hotP coolP moved)

/-- Whatever the input, the suggestions for a tenant narrow the gap as far as it goes. -/
theorem suggest_narrows_maximally (localeCompare : String → String → ℤ) (input : SuggestInput)
    (hthreshold : 0 ≤ input.threshold) (hids : (input.instances.map (·.id)).Nodup) (t : String) :
    MaximallyNarrowed localeCompare input t := by
  unfold MaximallyNarrowed
  rw [suggest_filter]
  constructor
  · intro hnone
    exact if_pos hnone
  · intro hsome
    rw [if_neg hsome]
    exact suggestFor_spec localeCompare hthreshold hids t hsome fun p hp =>
      memoryTotal_pos (List.mem_filter.mp hp).1

def twoClusters : SuggestInput where
  threshold := 20
  clusters := [⟨"a", "a", 100, 80⟩, ⟨"b", "b", 100, 20⟩]
  placements := [⟨"t", "t", "a", "web"⟩, ⟨"t", "t", "b", "web"⟩]
  instances := [⟨"i", "a", "web", "i", "Running", some 30⟩, ⟨"j", "a", "web", "j", "Running", some 50⟩]

theorem suggest_narrows_maximally_twoClusters :
    MaximallyNarrowed (fun _ _ => 0) twoClusters "t" ∧
      (suggest (fun _ _ => 0) twoClusters).map (·.instanceId) = ["j"] :=
  ⟨suggest_narrows_maximally _ twoClusters (by decide +kernel) (by decide) "t", by decide +kernel⟩

end IncusCloud.Balancing
