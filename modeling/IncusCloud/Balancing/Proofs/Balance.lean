import IncusCloud.Balancing.Proofs.Steps

/-!
# The balancing loop

`bestMove` finds an admissible unit and leaves everything but the loads as it was. Each round of
the loop moves a unit of guests that had not moved, so there are no more rounds than guests: the
plan is made, whatever the numbers are.
-/

open List Option

namespace IncusCloud.Balancing

open Lib
open Relation (ReflTransGen)

variable {N : Type} {i : PlanInput N} {source target : String} {fuel : ℕ}

theorem quiet_close (w : Work N) : Quiet w w.close := by
  unfold Work.close
  split_ifs
  · exact quiet_note w _
  · exact .refl w

/-! ### Units -/

structure Leaves (i : PlanInput N) (w : Work N) (source : String) (unit : List (Guest N)) :
    Prop where
  nonempty : unit ≠ []
  guests : ∀ g ∈ unit, g ∈ i.guests
  keys : (unit.map key).Nodup
  on : ∀ g ∈ unit, w.state.on g = source

theorem leaves_single {w : Work N} {g : Guest N} (hg : g ∈ i.guests)
    (hon : w.state.on g = source) : Leaves i w source [g] := by
  refine ⟨by simp, ?_, by simp, ?_⟩
  · simpa using hg
  · simpa using hon

variable [JsRuntime N]

theorem nodup_sortedGuests (hkeys : (i.guests.map key).Nodup) : ((sortedGuests i).map key).Nodup :=
  ((perm_insertionSort _ i.guests).map key).nodup_iff.mpr hkeys

theorem leaves_affinityGroup (hkeys : (i.guests.map key).Nodup) {w : Work N}
    {g : Guest N} (hg : g ∈ i.guests)
    (hall : (affinityGroup i g).all (mayLeave i w source) = true) :
    Leaves i w source (affinityGroup i g) := by
  have hself : g ∈ affinityGroup i g := by
    refine mem_filter.mpr ⟨mem_sortedGuests.mpr hg, ?_⟩
    simp
  refine ⟨ne_nil_of_mem hself, fun o ho => ?_, ?_, fun o ho => ?_⟩
  · exact mem_sortedGuests.mp (mem_filter.mp ho).1
  · exact (nodup_sortedGuests hkeys).sublist (filter_sublist.map _)
  · have hleave := all_eq_true.mp hall o ho
    exact of_decide_eq_true (Bool.and_eq_true_iff.mp hleave).1

theorem leaves_addUnit (hkeys : (i.guests.map key).Nodup) {w : Work N}
    {g : Guest N} (hg : g ∈ i.guests) (hon : w.state.on g = source)
    {acc : List (List (Guest N)) × List String} (hacc : ∀ u ∈ acc.1, Leaves i w source u) :
    ∀ u ∈ (addUnit i w source acc g).1, Leaves i w source u := by
  obtain ⟨units, seen⟩ := acc
  unfold addUnit
  dsimp only
  split_ifs with _ _ hall
  · exact hacc
  · intro u hu
    rcases mem_append.mp hu with hu | hu
    · exact hacc u hu
    · rw [mem_singleton.mp hu]
      exact leaves_affinityGroup hkeys hg hall
  · exact hacc
  · intro u hu
    rcases mem_append.mp hu with hu | hu
    · exact hacc u hu
    · rw [mem_singleton.mp hu]
      exact leaves_single hg hon

theorem leaves_unitsOn (hkeys : (i.guests.map key).Nodup) (w : Work N) (source : String) :
    ∀ u ∈ unitsOn i w source, Leaves i w source u := by
  unfold unitsOn
  refine List.foldlRecOn (motive := fun acc : List (List (Guest N)) × List String =>
    ∀ u ∈ acc.1, Leaves i w source u) _ _ (fun u hu => (nomatch hu)) fun acc hacc g hg => ?_
  obtain ⟨hmem, hleave⟩ := mem_filter.mp hg
  exact leaves_addUnit hkeys (mem_sortedGuests.mp hmem)
    (of_decide_eq_true (Bool.and_eq_true_iff.mp hleave).1) hacc

/-! ### The best move -/

structure Found (i : PlanInput N) (w : Work N) (acc : Option (Best N) × State N) : Prop where
  on : acc.2.on = w.state.on
  best : ∀ b ∈ acc.1, b.unit ≠ [] ∧ Admissible i w b.unit b.target

theorem found_tryTarget {w : Work N} {current : N} {unit : List (Guest N)}
    {acc : Option (Best N) × State N} (hleaves : Leaves i w source unit)
    (htarget : ∀ g ∈ unit, target ∈ w.allowed i g) (hacc : Found i w acc) :
    Found i w (tryTarget i source current unit acc target) := by
  obtain ⟨best, s⟩ := acc
  have hon : s.on = w.state.on := hacc.on
  have hback : (moveAll i.toFleet (moveAll i.toFleet s unit target) unit source).on = w.state.on := by
    rw [on_moveAll_back i.toFleet (fun g hg => ?_) target, hon]
    rw [hon]
    exact hleaves.on g hg
  unfold tryTarget
  dsimp only
  -- Skipped, no improvement, better, not better.
  split_ifs with hskip _ _
  · exact hacc
  · exact ⟨hback, hacc.best⟩
  · refine ⟨hback, fun b hb => ?_⟩
    obtain rfl := some.inj hb
    simp only [Bool.or_eq_true, not_or] at hskip
    have hapart := eq_false_of_ne_true hskip.2
    refine ⟨hleaves.nonempty, hleaves.guests, hleaves.keys, ⟨source, hleaves.on⟩, htarget,
      fun g hg => ?_⟩
    rw [← State.antiConflict_congr i.toFleet hon]
    exact eq_false_of_ne_true (any_eq_false.mp hapart g hg)
  · exact ⟨hback, hacc.best⟩

theorem found_tryUnit {w : Work N} {current : N} {unit : List (Guest N)}
    {acc : Option (Best N) × State N} (hleaves : Leaves i w source unit) (hacc : Found i w acc) :
    Found i w (tryUnit i w source current acc unit) := by
  unfold tryUnit
  refine List.foldlRecOn (motive := Found i w) _ _ hacc fun acc' hacc' target htarget => ?_
  have hall := all_eq_true.mp (mem_filter.mp htarget).2
  refine found_tryTarget hleaves (fun g hg => ?_) hacc'
  rw [← Work.allowed_congr i (show ({ w with state := acc.2 } : Work N).state.on = _ from hacc.on) rfl]
  simpa using hall g hg

theorem found_bestMove (hkeys : (i.guests.map key).Nodup) (w : Work N) (source : String)
    (current : N) : Found i w (bestMove i w source current) := by
  unfold bestMove
  refine List.foldlRecOn (motive := Found i w) _ _ ⟨rfl, fun b hb => (nomatch hb)⟩
    fun acc hacc unit hunit => ?_
  exact found_tryUnit (leaves_unitsOn hkeys w source unit hunit) hacc

theorem firstBest_spec (hkeys : (i.guests.map key).Nodup) (current : N) (sources : List String)
    (w : Work N) :
    Quiet w (firstBest i current w sources).2 ∧ ∀ b ∈ (firstBest i current w sources).1,
      b.unit ≠ [] ∧ Admissible i (firstBest i current w sources).2 b.unit b.target := by
  induction sources generalizing w with
  | nil => exact ⟨.refl w, fun b hb => (nomatch hb)⟩
  | cons source rest ih =>
    have hfound := found_bestMove hkeys w source current
    have hquiet : ∀ s : State N, s.on = w.state.on → Quiet w { w with state := s } :=
      fun s hs => ⟨hs, rfl, rfl⟩
    unfold firstBest
    split
    · rename_i b s hbs
      rw [hbs] at hfound
      refine ⟨hquiet s hfound.on, fun b' hb' => ?_⟩
      obtain ⟨hne, hadm⟩ := hfound.best b' hb'
      exact ⟨hne, (hquiet s hfound.on).admissible hadm⟩
    · rename_i s hbs
      rw [hbs] at hfound
      obtain ⟨hrest, hbest⟩ := ih { w with state := s }
      exact ⟨(hquiet s hfound.on).trans hrest, hbest⟩

/-! ### What a recorded unit changes -/

theorem recordAll_spec {unit : List (Guest N)} {w : Work N} (hkeys : (unit.map key).Nodup)
    (room : ((w.moves.length + unit.length : ℕ) : ℤ) ≤ i.maxMoves) (target : String)
    (reason : MoveReason) :
    (recordAll i w unit target reason).moves =
        w.moves ++ unit.map (fun g => ⟨g.project, g.name, w.state.on g, target, reason⟩) ∧
      (∀ k, k ∈ (recordAll i w unit target reason).moved ↔ k ∈ unit.map key ∨ k ∈ w.moved) ∧
      ∀ o, (recordAll i w unit target reason).state.on o =
        if key o ∈ unit.map key then target else w.state.on o := by
  unfold recordAll
  induction unit generalizing w with
  | nil => simp
  | cons g unit ih =>
    rw [map_cons, nodup_cons] at hkeys
    rw [length_cons] at room
    have hroom : ¬ (w.moves.length : ℤ) ≥ i.maxMoves := by omega
    have hrecord : (w.record i g target reason).2 =
        { w with
          moves := w.moves ++ [⟨g.project, g.name, w.state.on g, target, reason⟩]
          state := w.state.move i.toFleet g target
          moved := key g :: w.moved } := by
      unfold Work.record
      rw [if_neg hroom]
    obtain ⟨hmoves, hmoved, hon⟩ := ih (w := (w.record i g target reason).2) hkeys.2 (by
      rw [hrecord, length_append, length_singleton]
      omega)
    rw [foldl_cons]
    refine ⟨?_, fun k => ?_, fun o => ?_⟩
    · rw [hmoves, hrecord, append_assoc, singleton_append, map_cons]
      congr 2
      -- The others of the unit have not moved yet.
      refine map_congr_left fun o ho => ?_
      have hne : key o ≠ key g := fun h => hkeys.1 (h ▸ mem_map_of_mem ho)
      rw [State.on_move, if_neg hne]
    · rw [hmoved, hrecord, map_cons]
      simp only [mem_cons]
      tauto
    · rw [hon, hrecord, State.on_move, map_cons]
      exact ite_mem_cons _ _ _ _ _

/-! ### The loop -/

theorem steps_balance (hkeys : (i.guests.map key).Nodup) {w w' : Work N}
    (h : balance i fuel w = some w') : Steps i w w' := by
  induction fuel generalizing w with
  | zero => cases h
  | succ fuel ih =>
    obtain ⟨hquiet, hbest⟩ :=
      firstBest_spec hkeys (w.state.spread i.toFleet i.method) (sources i w.state) w
    unfold balance at h
    dsimp only at h
    split_ifs at h
    · obtain rfl := some.inj h
      exact .refl
    · split at h
      · rename_i w1 hw1
        rw [hw1] at hquiet
        obtain rfl := some.inj h
        exact (hquiet.trans (quiet_note w1 _)).steps
      · rename_i b w1 hw1
        rw [hw1] at hquiet hbest
        obtain ⟨-, hadm⟩ := hbest b rfl
        split_ifs at h with hroom
        · -- A unit is not moved in part: the plan stops before it.
          obtain rfl := some.inj h
          exact (hquiet.trans (quiet_cap w1)).steps
        · exact hquiet.steps.trans (.head (.shift .balance hadm (not_lt.mp hroom)) (ih h))

def unmoved (i : PlanInput N) (w : Work N) : ℕ := i.guests.countP fun g => key g ∉ w.moved

theorem unmoved_recordAll_lt {w : Work N} {unit : List (Guest N)}
    (hadm : Admissible i w unit target) (hne : unit ≠ [])
    (room : ((w.moves.length + unit.length : ℕ) : ℤ) ≤ i.maxMoves) (reason : MoveReason) :
    unmoved i (recordAll i w unit target reason) < unmoved i w := by
  obtain ⟨g, hg⟩ := exists_mem_of_ne_nil unit hne
  obtain ⟨-, hmoved, -⟩ := recordAll_spec hadm.keys room target reason
  have hbefore : key g ∉ w.moved := (Work.mem_allowed.mp (hadm.allowed g hg)).1.2.2
  have hafter : key g ∈ (recordAll i w unit target reason).moved :=
    (hmoved _).mpr (.inl (mem_map_of_mem hg))
  have hle : ∀ l : List (Guest N),
      (l.countP fun o => key o ∉ (recordAll i w unit target reason).moved) ≤
        l.countP fun o => key o ∉ w.moved := by
    intro l
    refine countP_mono_left fun o _ ho => ?_
    simp only [decide_eq_true_eq] at ho ⊢
    exact fun h => ho ((hmoved _).mpr (.inr h))
  obtain ⟨l, r, hsplit⟩ := append_of_mem (hadm.guests g hg)
  have hl := hle l
  have hr := hle r
  unfold unmoved
  rw [hsplit, countP_append, countP_append, countP_cons_of_neg (by simpa using hafter),
    countP_cons_of_pos (by simpa using hbefore)]
  omega

theorem balance_isSome (hkeys : (i.guests.map key).Nodup) {w : Work N}
    (hfuel : unmoved i w < fuel) : (balance i fuel w).isSome = true := by
  induction fuel generalizing w with
  | zero => omega
  | succ fuel ih =>
    obtain ⟨hquiet, hbest⟩ :=
      firstBest_spec hkeys (w.state.spread i.toFleet i.method) (sources i w.state) w
    unfold balance
    dsimp only
    split_ifs
    · rfl
    · split
      · rfl
      · rename_i b w1 hw1
        rw [hw1] at hquiet hbest
        obtain ⟨hne, hadm⟩ : b.unit ≠ [] ∧ Admissible i w1 b.unit b.target := hbest b rfl
        split_ifs with hroom
        · rfl
        · -- The search moved nothing, the unit at least one guest.
          refine ih ?_
          have hlt := unmoved_recordAll_lt hadm hne (not_lt.mp hroom) .balance
          have hsame : unmoved i w1 = unmoved i w := by
            unfold unmoved
            rw [hquiet.moved]
          omega

/-! ### The plan -/

theorem plan_steps (hkeys : (i.guests.map key).Nodup) :
    ∃ p w, plan i = some p ∧ Steps i (.start i) w ∧ p.moves = w.moves := by
  have hfuel : unmoved i (hints i) < i.guests.length + 1 := Nat.lt_succ_of_le countP_le_length
  obtain ⟨w, hw⟩ := isSome_iff_exists.mp (balance_isSome hkeys hfuel)
  unfold plan
  rw [hw]
  exact ⟨_, w, rfl, (steps_hints i).trans (steps_balance hkeys hw), (quiet_close w).moves⟩

/-!
### The rounds of the balancing loop

The loop repeats a `round` until there is none, and then it stops. A round moves the unit of a
guest: its affinity group, or the guest alone when it has none. `unitsOn` finds exactly the units
that may leave a member.
-/

variable {N : Type} [JsRuntime N] {i : PlanInput N}

/-! ### One round -/

/-- What the loop does before it looks again, unless it stops. -/
def round (i : PlanInput N) (w : Work N) : Option (Work N) :=
  let current := w.state.spread i.toFleet i.method
  if JsRuntime.le current i.balanciness || w.capped then none
  else
    match firstBest i current w (sources i w.state) with
    | (none, _) => none
    | (some b, w) =>
      if ((w.moves.length + b.unit.length : ℕ) : ℤ) > i.maxMoves then none
      else some (recordAll i w b.unit b.target .balance)

def stop (i : PlanInput N) (w : Work N) : Work N :=
  let current := w.state.spread i.toFleet i.method
  if JsRuntime.le current i.balanciness || w.capped then w
  else
    match firstBest i current w (sources i w.state) with
    | (none, w) =>
      w.note ("No move improves the balance further (" ++ JsRuntime.toFixed1 current ++ " points of spread left)")
    | (some _, w) => { w with capped := true }

abbrev Rounds (i : PlanInput N) : Work N → Work N → Prop := ReflTransGen fun w w' => round i w = some w'

theorem balance_succ (i : PlanInput N) (fuel : ℕ) (w : Work N) :
    balance i (fuel + 1) w = (round i w).elim (some (stop i w)) (balance i fuel) := by
  rw [balance]
  unfold round stop
  dsimp only
  by_cases hdone : (JsRuntime.le (w.state.spread i.toFleet i.method) i.balanciness || w.capped) = true
  · rw [if_pos hdone, if_pos hdone, if_pos hdone]
    rfl
  · rw [if_neg hdone, if_neg hdone, if_neg hdone]
    cases hbest : firstBest i (w.state.spread i.toFleet i.method) w (sources i w.state) with
    | mk best w₁ =>
      cases best with
      | none => rfl
      | some b =>
        dsimp only
        by_cases hroom : ((w₁.moves.length + b.unit.length : ℕ) : ℤ) > i.maxMoves
        · rw [if_pos hroom, if_pos hroom]
          rfl
        · rw [if_neg hroom, if_neg hroom]
          rfl

theorem balance_rounds {w w' : Work N} (h : balance i fuel w = some w') :
    ∃ last, Rounds i w last ∧ round i last = none ∧ w' = stop i last := by
  induction fuel generalizing w with
  | zero => cases h
  | succ fuel ih =>
    rw [balance_succ] at h
    cases hround : round i w with
    | none =>
      rw [hround] at h
      exact ⟨w, .refl, hround, (some.inj h).symm⟩
    | some w₁ =>
      rw [hround] at h
      obtain ⟨last, hrounds, hnone, hstop⟩ := ih h
      exact ⟨last, .head hround hrounds, hnone, hstop⟩

theorem balance_mono {fuel' : ℕ} (hle : fuel ≤ fuel') {w w' : Work N}
    (h : balance i fuel w = some w') : balance i fuel' w = some w' := by
  induction fuel generalizing fuel' w with
  | zero => cases h
  | succ fuel ih =>
    obtain ⟨fuel', rfl⟩ : ∃ n, fuel' = n + 1 := ⟨fuel' - 1, by omega⟩
    rw [balance_succ] at h ⊢
    cases hround : round i w with
    | none =>
      rw [hround] at h
      exact h
    | some w₁ =>
      rw [hround] at h
      exact ih (by omega) h

/-! ### The units of guests -/

def unitOf (i : PlanInput N) (g : Guest N) : List (Guest N) :=
  if (given g.hints.affinity).isSome then affinityGroup i g else [g]

theorem self_mem_affinityGroup {g : Guest N} (hg : g ∈ i.guests) : g ∈ affinityGroup i g := by
  refine mem_filter.mpr ⟨mem_sortedGuests.mpr hg, ?_⟩
  simp

theorem mem_affinityGroup {g o : Guest N} :
    o ∈ affinityGroup i g ↔ o ∈ i.guests ∧ o.project = g.project ∧ o.hints.affinity = g.hints.affinity := by
  unfold affinityGroup
  rw [mem_filter, mem_sortedGuests]
  simp

theorem affinityGroup_eq {g o : Guest N} (ho : o ∈ affinityGroup i g) : affinityGroup i o = affinityGroup i g := by
  obtain ⟨-, hproject, haffinity⟩ := mem_affinityGroup.mp ho
  unfold affinityGroup
  rw [hproject, haffinity]

theorem self_mem_unitOf {g : Guest N} (hg : g ∈ i.guests) : g ∈ unitOf i g := by
  unfold unitOf
  by_cases haffinity : (given g.hints.affinity).isSome
  · rw [if_pos haffinity]
    exact self_mem_affinityGroup hg
  · rw [if_neg haffinity]
    exact mem_singleton_self g

theorem unitOf_eq {g o : Guest N} (ho : o ∈ unitOf i g) : unitOf i o = unitOf i g := by
  unfold unitOf at ho ⊢
  by_cases haffinity : (given g.hints.affinity).isSome
  · rw [if_pos haffinity] at ho ⊢
    have hsame := (mem_affinityGroup.mp ho).2.2
    rw [hsame, if_pos haffinity, affinityGroup_eq ho]
  · rw [if_neg haffinity] at ho
    rw [mem_singleton.mp ho]

theorem guests_unitOf {g : Guest N} (hg : g ∈ i.guests) : ∀ o ∈ unitOf i g, o ∈ i.guests := by
  intro o ho
  unfold unitOf at ho
  by_cases haffinity : (given g.hints.affinity).isSome
  · rw [if_pos haffinity] at ho
    exact (mem_affinityGroup.mp ho).1
  · rw [if_neg haffinity] at ho
    rw [mem_singleton.mp ho]
    exact hg

theorem keys_unitOf (hkeys : (i.guests.map key).Nodup) (g : Guest N) : ((unitOf i g).map key).Nodup := by
  unfold unitOf
  by_cases haffinity : (given g.hints.affinity).isSome
  · rw [if_pos haffinity]
    exact (nodup_sortedGuests hkeys).sublist (filter_sublist.map _)
  · rw [if_neg haffinity]
    simp

/-! ### What `unitsOn` finds -/

/-- What `unitsOn` has so far: units, and among them that of every guest seen. -/
structure Units (i : PlanInput N) (acc : List (List (Guest N)) × List String) : Prop where
  units : ∀ u ∈ acc.1, ∃ g ∈ i.guests, u = unitOf i g
  seen : ∀ g ∈ i.guests, key g ∈ acc.2 → unitOf i g ∈ acc.1

theorem units_addUnit (hkeys : (i.guests.map key).Nodup) {w : Work N} {g : Guest N}
    (hg : g ∈ i.guests) {acc : List (List (Guest N)) × List String} (h : Units i acc) :
    Units i (addUnit i w source acc g) := by
  obtain ⟨units, seen⟩ := acc
  have hunits : ∀ u ∈ units ++ [unitOf i g], ∃ o ∈ i.guests, u = unitOf i o := by
    intro u hu
    rcases mem_append.mp hu with hu | hu
    · exact h.units u hu
    · exact ⟨g, hg, mem_singleton.mp hu⟩
  -- The guests whose keys are added are those of the unit.
  have hseen : ∀ o ∈ i.guests, key o ∈ (unitOf i g).map key ++ seen → unitOf i o ∈ units ++ [unitOf i g] := by
    intro o ho hk
    rcases mem_append.mp hk with hk | hk
    · obtain ⟨x, hx, hxo⟩ := List.mem_map.mp hk
      have hsame : x = o := inj_on_of_nodup_map hkeys (guests_unitOf hg x hx) ho hxo
      rw [← hsame, unitOf_eq hx]
      exact mem_append_right _ (mem_singleton_self _)
    · exact mem_append_left _ (h.seen o ho hk)
  unfold addUnit
  dsimp only
  by_cases hold : seen.contains (key g) = true
  · rw [if_pos hold]
    exact h
  · rw [if_neg hold]
    unfold unitOf at hunits hseen
    by_cases haffinity : (given g.hints.affinity).isSome
    · rw [if_pos haffinity]
      rw [if_pos haffinity] at hunits hseen
      by_cases hall : (affinityGroup i g).all (mayLeave i w source) = true
      · rw [if_pos hall]
        exact ⟨hunits, hseen⟩
      · rw [if_neg hall]
        exact h
    · rw [if_neg haffinity]
      rw [if_neg haffinity] at hunits hseen
      exact ⟨hunits, hseen⟩

theorem mem_addUnit {w : Work N} {acc : List (List (Guest N)) × List String}
    {u : List (Guest N)} (hu : u ∈ acc.1) (g : Guest N) : u ∈ (addUnit i w source acc g).1 := by
  unfold addUnit
  dsimp only
  split_ifs
  · exact hu
  · exact mem_append_left _ hu
  · exact hu
  · exact mem_append_left _ hu

theorem unitOf_mem_addUnit {w : Work N} {g : Guest N} (hg : g ∈ i.guests)
    {acc : List (List (Guest N)) × List String} (h : Units i acc)
    (hall : ∀ o ∈ unitOf i g, mayLeave i w source o = true) : unitOf i g ∈ (addUnit i w source acc g).1 := by
  obtain ⟨units, seen⟩ := acc
  have hmem : ∀ u : List (Guest N), u ∈ units ++ [u] := fun u =>
    mem_append_right _ (mem_singleton_self u)
  unfold addUnit
  dsimp only
  by_cases hold : seen.contains (key g) = true
  · rw [if_pos hold]
    exact h.seen g hg (by simpa using hold)
  · rw [if_neg hold]
    unfold unitOf at hall ⊢
    by_cases haffinity : (given g.hints.affinity).isSome
    · rw [if_pos haffinity] at hall ⊢
      rw [if_pos haffinity, if_pos (all_eq_true.mpr hall)]
      exact hmem _
    · rw [if_neg haffinity] at hall ⊢
      rw [if_neg haffinity]
      exact hmem _

theorem units_foldl (hkeys : (i.guests.map key).Nodup) (w : Work N) (source : String) {gs : List (Guest N)}
    (hgs : ∀ g ∈ gs, g ∈ i.guests) {acc : List (List (Guest N)) × List String} (h : Units i acc) :
    Units i (gs.foldl (addUnit i w source) acc) :=
  List.foldlRecOn gs _ h fun _ hacc g hg => units_addUnit hkeys (hgs g hg) hacc

theorem here_guests {w : Work N} :
    ∀ g ∈ (sortedGuests i).filter (mayLeave i w source), g ∈ i.guests :=
  fun _ hg => mem_sortedGuests.mp (mem_filter.mp hg).1

theorem exists_unitOf_eq (hkeys : (i.guests.map key).Nodup) {w : Work N} {u : List (Guest N)}
    (hu : u ∈ unitsOn i w source) : ∃ g ∈ i.guests, u = unitOf i g := by
  have hempty : Units i (([], []) : List (List (Guest N)) × List String) :=
    ⟨fun u hu => (nomatch hu), fun g _ hg => (nomatch hg)⟩
  exact (units_foldl hkeys w source here_guests hempty).units u hu

theorem mem_unitsOn (hkeys : (i.guests.map key).Nodup) {w : Work N} {g : Guest N}
    (hg : g ∈ i.guests) (hall : ∀ o ∈ unitOf i g, mayLeave i w source o = true) :
    unitOf i g ∈ unitsOn i w source := by
  have hhere : g ∈ (sortedGuests i).filter (mayLeave i w source) :=
    mem_filter.mpr ⟨mem_sortedGuests.mpr hg, hall g (self_mem_unitOf hg)⟩
  obtain ⟨before, after, hsplit⟩ := append_of_mem hhere
  have hempty : Units i (([], []) : List (List (Guest N)) × List String) :=
    ⟨fun u hu => (nomatch hu), fun g _ hg => (nomatch hg)⟩
  have hbefore : Units i (before.foldl (addUnit i w source) ([], [])) := by
    refine units_foldl hkeys w source (fun x hx => ?_) hempty
    have hxhere : x ∈ (sortedGuests i).filter (mayLeave i w source) := by
      rw [hsplit]
      exact mem_append_left _ hx
    exact here_guests x hxhere
  unfold unitsOn
  rw [hsplit, foldl_append, foldl_cons]
  exact List.foldlRecOn (motive := fun acc : List (List (Guest N)) × List String => unitOf i g ∈ acc.1) after _
    (unitOf_mem_addUnit hg hbefore hall) fun _ hacc o _ => mem_addUnit hacc o

/-! ### The unit of a round -/

theorem unit_tryTarget {current : N} {unit : List (Guest N)}
    {acc : Option (Best N) × State N} {P : List (Guest N) → Prop} (hunit : P unit) (hacc : ∀ b ∈ acc.1, P b.unit) :
    ∀ b ∈ (tryTarget i source current unit acc target).1, P b.unit := by
  unfold tryTarget
  dsimp only
  split_ifs
  · exact hacc
  · exact hacc
  · intro b hb
    rw [← some.inj hb]
    exact hunit
  · exact hacc

theorem unit_bestMove {w : Work N} {current : N} {P : List (Guest N) → Prop}
    (hP : ∀ u ∈ unitsOn i w source, P u) : ∀ b ∈ (bestMove i w source current).1, P b.unit := by
  unfold bestMove
  refine List.foldlRecOn (motive := fun acc : Option (Best N) × State N => ∀ b ∈ acc.1, P b.unit) _ _
    (fun b hb => (nomatch hb)) fun acc hacc unit hunit => ?_
  unfold tryUnit
  exact List.foldlRecOn (motive := fun acc : Option (Best N) × State N => ∀ b ∈ acc.1, P b.unit) _ _ hacc
    fun acc' hacc' target _ => unit_tryTarget (hP unit hunit) hacc'

theorem unit_firstBest (hkeys : (i.guests.map key).Nodup) (current : N) (sources : List String) (w : Work N) :
    ∀ b ∈ (firstBest i current w sources).1, ∃ g ∈ i.guests, b.unit = unitOf i g := by
  induction sources generalizing w with
  | nil => exact fun b hb => (nomatch hb)
  | cons source rest ih =>
    have hunit : ∀ b ∈ (bestMove i w source current).1, ∃ g ∈ i.guests, b.unit = unitOf i g :=
      unit_bestMove (P := fun u => ∃ g ∈ i.guests, u = unitOf i g) fun _ hu => exists_unitOf_eq hkeys hu
    unfold firstBest
    split
    · rename_i b s hbs
      rw [hbs] at hunit
      exact hunit
    · rename_i s hbs
      exact ih { w with state := s }

theorem round_eq {w w' : Work N} (h : round i w = some w') :
    ∃ b w₁, firstBest i (w.state.spread i.toFleet i.method) w (sources i w.state) = (some b, w₁) ∧
      ((w₁.moves.length + b.unit.length : ℕ) : ℤ) ≤ i.maxMoves ∧
      w' = recordAll i w₁ b.unit b.target .balance := by
  unfold round at h
  dsimp only at h
  split_ifs at h
  split at h
  · cases h
  · rename_i b w₁ hbest
    split_ifs at h with hroom
    exact ⟨b, w₁, hbest, not_lt.mp hroom, (some.inj h).symm⟩

theorem round_spec (hkeys : (i.guests.map key).Nodup) {w w' : Work N} (h : round i w = some w') :
    ∃ w₁ target, ∃ g ∈ i.guests, Quiet w w₁ ∧ Admissible i w₁ (unitOf i g) target ∧
      ((w₁.moves.length + (unitOf i g).length : ℕ) : ℤ) ≤ i.maxMoves ∧
      w' = recordAll i w₁ (unitOf i g) target .balance := by
  obtain ⟨hquiet, hbest⟩ := firstBest_spec hkeys (w.state.spread i.toFleet i.method) (sources i w.state) w
  have hunit := unit_firstBest hkeys (w.state.spread i.toFleet i.method) (sources i w.state) w
  obtain ⟨b, w₁, hw₁, hroom, hw'⟩ := round_eq h
  rw [hw₁] at hquiet hbest hunit
  obtain ⟨g, hg, hbg⟩ := hunit b rfl
  obtain ⟨-, hadm⟩ := hbest b rfl
  rw [hbg] at hadm hroom hw'
  exact ⟨w₁, b.target, g, hg, hquiet, hadm, hroom, hw'⟩

theorem steps_rounds (hkeys : (i.guests.map key).Nodup) {w w' : Work N} (h : Rounds i w w') : Steps i w w' := by
  induction h with
  | refl => exact .refl
  | tail _ hround ih =>
    obtain ⟨w₁, target, g, hg, hquiet, hadm, hroom, rfl⟩ := round_spec hkeys hround
    exact (ih.trans hquiet.steps).tail (.shift .balance hadm hroom)

theorem quiet_stop (hkeys : (i.guests.map key).Nodup) (w : Work N) : Quiet w (stop i w) := by
  obtain ⟨hquiet, -⟩ := firstBest_spec hkeys (w.state.spread i.toFleet i.method) (sources i w.state) w
  unfold stop
  dsimp only
  split_ifs
  · exact .refl w
  · split
    · rename_i w₁ hw₁
      rw [hw₁] at hquiet
      exact hquiet.trans (quiet_note w₁ _)
    · rename_i b w₁ hw₁
      rw [hw₁] at hquiet
      exact hquiet.trans (quiet_cap w₁)

/-! ### The plan of the rounds -/

def planOf (i : PlanInput N) (last : Work N) : Plan N where
  before := (State.new i.toFleet).spread i.toFleet i.method
  after := (stop i last).state.spread i.toFleet i.method
  moves := (stop i last).moves
  notes := (stop i last).close.notes

theorem plan_rounds (hkeys : (i.guests.map key).Nodup) :
    ∃ last, Rounds i (hints i) last ∧ round i last = none ∧ plan i = some (planOf i last) ∧
      ∀ fuel > i.guests.length, balance i fuel (hints i) = some (stop i last) := by
  have hfuel : unmoved i (hints i) < i.guests.length + 1 := Nat.lt_succ_of_le countP_le_length
  obtain ⟨w, hw⟩ := isSome_iff_exists.mp (balance_isSome hkeys hfuel)
  obtain ⟨last, hrounds, hnone, hstop⟩ := balance_rounds hw
  have hstate : w.close.state = w.state := by
    unfold Work.close
    split_ifs
    · rfl
    · rfl
  have hplan : plan i = some (planOf i last) := by
    unfold plan planOf
    rw [hw, ← hstop, map_some, hstate, (quiet_close w).moves]
  refine ⟨last, hrounds, hnone, hplan, fun fuel hmore => ?_⟩
  rw [← hstop]
  exact balance_mono hmore hw

end IncusCloud.Balancing
