import IncusCloud.Balancing.Proofs.Search
import Mathlib.Algebra.Order.BigOperators.Group.List

/-!
# A plan overfills no target

A unit goes where it fits at that time. What moves later comes onto a target only where it fits
again, and else leaves it, so a target never has more than it holds.
-/

namespace IncusCloud.Balancing

open Lib List Option
open Exact

variable {N : Type} [JsRuntime N] {i : PlanInput N} {w w' : Work N}

/-! ### The load after some moves -/

def moveSize (c : Fleet N) (m : Move) (r : Method) : N :=
  ((c.guests.find? fun g => m.isOf g).map fun g => State.size c g r).getD 0

def loadAfter (c : Fleet N) (moves : List Move) (member : String) (r : Method) : N :=
  moves.foldl
    (fun load m =>
      load - (if m.source = member then moveSize c m r else 0) +
        if m.target = member then moveSize c m r else 0)
    ((State.new c).loadOf member r)

theorem moveSize_eq (hkeys : (i.guests.map key).Nodup) {g : Guest N} (hg : g ∈ i.guests) {m : Move}
    (hm : m.isOf g) (r : Method) : moveSize i.toFleet m r = State.size i.toFleet g r := by
  have hfind : i.guests.find? (fun o => m.isOf o) = some g := by
    cases hf : i.guests.find? (fun o => m.isOf o) with
    | none =>
      have hno := List.find?_eq_none.mp hf g hg
      exact absurd (decide_eq_true hm) hno
    | some o =>
      have hfound := List.find?_some hf
      have ho : m.isOf o := of_decide_eq_true hfound
      have hkey : key o = key g := by
        unfold key
        rw [← ho.1, ← ho.2, hm.1, hm.2]
      rw [eq_of_key hkeys (mem_of_find?_eq_some hf) hg hkey]
  unfold moveSize
  rw [hfind]
  rfl

theorem isSome_load_new {c : Fleet N} {member : String} (h : member ∈ c.activeNames) :
    ((State.new c).load.get member).isSome = true := by
  obtain ⟨x, hx, hname, -⟩ := mem_activeNames.mp h
  have hstart : ((OrdMap.ofList (c.members.map fun m => (m.name, State.initialLoad c.mode m))).get
    member).isSome = true := by
    have hmem : (x.name, State.initialLoad c.mode x) ∈
        (c.members.map fun m => (m.name, State.initialLoad c.mode m)).filter fun e => e.1 = member := by
      refine mem_filter.mpr ⟨List.mem_map.mpr ⟨x, hx, rfl⟩, ?_⟩
      simpa using hname
    rw [OrdMap.get_ofList, isSome_map, List.getLast?_isSome]
    exact ne_nil_of_mem hmem
  have hassign : ∀ (gs : List (Guest N)) (load : OrdMap String (Resources N)),
    (load.get member).isSome = true →
      ((gs.foldl State.assign load).get member).isSome = true := by
    intro gs
    induction gs with
    | nil => exact fun load hload => hload
    | cons g gs ih =>
      intro load hload
      rw [foldl_cons]
      apply ih
      unfold State.assign
      split
      · rw [OrdMap.get_set]
        split_ifs
        · rfl
        · exact hload
      · exact hload
  unfold State.new
  split
  · exact hstart
  · exact hassign _ _ hstart

variable [Exact N]

theorem loadAfter_unit (hkeys : (i.guests.map key).Nodup) {unit : List (Guest N)}
    (hunit : ∀ g ∈ unit, g ∈ i.guests)
    (moves : List Move) (on : Guest N → String) {source : String} (hon : ∀ g ∈ unit, on g = source)
    (target member : String) (reason : MoveReason) (r : Method) :
    val (loadAfter i.toFleet (moves ++ unit.map fun g => ⟨g.project, g.name, on g, target, reason⟩)
      member r) =
      val (loadAfter i.toFleet moves member r) + (if member = source then -unitVal i.toFleet unit r else 0) +
        if member = target then unitVal i.toFleet unit r else 0 := by
  unfold loadAfter
  rw [foldl_append]
  generalize moves.foldl _ _ = load
  induction unit generalizing load with
  | nil =>
    unfold unitVal
    simp
  | cons g unit ih =>
    have hsize : moveSize i.toFleet ⟨g.project, g.name, on g, target, reason⟩ r = State.size i.toFleet g r :=
      moveSize_eq hkeys (hunit g mem_cons_self) ⟨rfl, rfl⟩ r
    have hval : val (State.size i.toFleet g r) = sizeVal i.toFleet g r := rfl
    rw [map_cons, foldl_cons, ih (fun x hx => hunit x (mem_cons_of_mem g hx))
      (fun x hx => hon x (mem_cons_of_mem g hx)), hsize, hon g mem_cons_self, unitVal_cons, val_add, val_sub]
    by_cases hs : member = source
    · by_cases ht : member = target
      · rw [if_pos hs, if_pos ht, if_pos hs.symm, if_pos ht.symm, if_pos hs, if_pos ht, hval]
        ring
      · rw [if_pos hs, if_neg ht, if_pos hs.symm, if_neg (Ne.symm ht), if_pos hs, if_neg ht, hval, val_zero]
        ring
    · by_cases ht : member = target
      · rw [if_neg hs, if_pos ht, if_neg (Ne.symm hs), if_pos ht.symm, if_neg hs, if_pos ht, hval, val_zero]
        ring
      · rw [if_neg hs, if_neg ht, if_neg (Ne.symm hs), if_neg (Ne.symm ht), if_neg hs, if_neg ht, val_zero]
        ring

/-! ### The invariant -/

structure Filled (i : PlanInput N) (w : Work N) : Prop where
  loads : ∀ member ∈ i.activeNames,
    w.state.value member i.method = some (val (loadAfter i.toFleet w.moves member i.method))
  room : ∀ m ∈ w.moves, m.target ∈ i.activeNames ∧
    val (loadAfter i.toFleet w.moves m.target i.method) ≤ val (State.totalOf i.toFleet m.target i.method)

theorem filled_start (i : PlanInput N) : Filled i (.start i) := by
  refine ⟨fun member h => ?_, fun m hm => (nomatch hm)⟩
  obtain ⟨l, hl⟩ := isSome_iff_exists.mp (isSome_load_new h)
  have hload : loadAfter i.toFleet [] member i.method = l.get i.method := by
    unfold loadAfter State.loadOf
    rw [foldl_nil, hl]
    rfl
  show (State.new i.toFleet).value member i.method = some (val (loadAfter i.toFleet [] member i.method))
  unfold State.value
  rw [hl, hload]
  rfl

theorem Filled.like (h : Filled i w) (hlike : Alike w.state w'.state)
    (hmoves : w'.moves = w.moves) : Filled i w' := by
  constructor
  · rw [hlike.value, hmoves]
    exact h.loads
  · rw [hmoves]
    exact h.room

theorem Filled.unit (hkeys : (i.guests.map key).Nodup)
    (hsizes : ∀ g ∈ i.guests, 0 ≤ sizeVal i.toFleet g i.method)
    (h : Filled i w) {unit : List (Guest N)} (hne : unit ≠ []) (hunit : ∀ g ∈ unit, g ∈ i.guests)
    (hnodup : (unit.map key).Nodup) {source target : String} (hon : ∀ g ∈ unit, w.state.on g = source)
    (hallowed : ∀ g ∈ unit, target ∈ w.allowed i g)
    (hfits : w.state.fits i.toFleet unit target i.method = true)
    (hroom : ((w.moves.length + unit.length : ℕ) : ℤ) ≤ i.maxMoves) (reason : MoveReason) :
    Filled i (recordAll i w unit target reason) := by
  obtain ⟨hmoves, -, -⟩ := recordAll_spec hnodup hroom target reason
  have hstate := state_recordAll hroom target reason
  have hafter : ∀ member, val (loadAfter i.toFleet (recordAll i w unit target reason).moves member i.method) =
      val (loadAfter i.toFleet w.moves member i.method) +
        (if member = source then -unitVal i.toFleet unit i.method else 0) +
          if member = target then unitVal i.toFleet unit i.method else 0 := by
    intro member
    rw [hmoves]
    exact loadAfter_unit hkeys hunit w.moves w.state.on hon target member reason i.method
  have hpos : 0 ≤ unitVal i.toFleet unit i.method := by
    apply sum_nonneg
    intro x hx
    obtain ⟨g, hg, rfl⟩ := List.mem_map.mp hx
    exact hsizes g (hunit g hg)
  constructor
  · intro member hmember
    rw [hstate, value_moveAll i.toFleet hnodup hon, h.loads member hmember, hafter]
    rfl
  · -- Where guests come they fit, and elsewhere there is not more than before.
    have hold : ∀ member, member ≠ target →
        val (loadAfter i.toFleet w.moves member i.method) ≤ val (State.totalOf i.toFleet member i.method) →
        val (loadAfter i.toFleet (recordAll i w unit target reason).moves member i.method) ≤
          val (State.totalOf i.toFleet member i.method) := by
      intro member hother hle
      rw [hafter, if_neg hother]
      split_ifs
      · linarith
      · linarith
    have hnew : target ∈ i.activeNames ∧
        val (loadAfter i.toFleet (recordAll i w unit target reason).moves target i.method) ≤
          val (State.totalOf i.toFleet target i.method) := by
      obtain ⟨g, hg⟩ := exists_mem_of_ne_nil unit hne
      obtain ⟨-, -, hactive, hmove, -⟩ := Work.mem_allowed.mp (hallowed g hg)
      have hsource : target ≠ source := by
        rw [← hon g hg]
        exact hmove
      have hle := fits_iff.mp hfits
      rw [h.loads target hactive, getD_some] at hle
      refine ⟨hactive, ?_⟩
      rw [hafter, if_neg hsource, if_pos rfl, add_zero]
      exact hle
    intro m hm
    by_cases ht : m.target = target
    · rw [ht]
      exact hnew
    · rw [hmoves] at hm
      rcases mem_append.mp hm with hm | hm
      · exact ⟨(h.room m hm).1, hold m.target ht (h.room m hm).2⟩
      · obtain ⟨g, -, rfl⟩ := List.mem_map.mp hm
        exact absurd rfl ht

/-! ### Plans -/

theorem Filled.hinted (hkeys : (i.guests.map key).Nodup)
    (hsizes : ∀ g ∈ i.guests, 0 ≤ sizeVal i.toFleet g i.method)
    (h : Filled i w) (hrun : AllHinted i w w') : Filled i w' := by
  induction hrun with
  | refl => exact h
  | @tail w₁ w₂ _ hstep ih =>
    cases hstep with
    | noted state moves moved =>
      have hlike : Alike w₁.state w₂.state := by
        rw [state]
        exact .refl w₁.state
      exact ih.like hlike moves
    | @moved g target reason hg allowed fits room cause =>
      have hon : ∀ o ∈ [g], w₁.state.on o = w₁.state.on g := by simp
      refine ih.unit hkeys hsizes (by simp) ?_ (by simp) hon ?_ fits room reason
      · simpa using hg
      · simpa using allowed

theorem Filled.round (hkeys : (i.guests.map key).Nodup)
    (hsizes : ∀ g ∈ i.guests, 0 ≤ sizeVal i.toFleet g i.method)
    (h : Filled i w) (hround : Balancing.round i w = some w') : Filled i w' := by
  obtain ⟨w₁, unit, target, hof, rfl⟩ := round_exact hkeys hround
  have hsearched := h.like hof.like hof.quiet.moves
  obtain ⟨source, hon⟩ := hof.admissible.together
  exact hsearched.unit hkeys hsizes hof.nonempty hof.admissible.guests hof.admissible.keys hon
    hof.admissible.allowed
    hof.fits hof.room .balance

theorem Filled.rounds (hkeys : (i.guests.map key).Nodup)
    (hsizes : ∀ g ∈ i.guests, 0 ≤ sizeVal i.toFleet g i.method)
    (h : Filled i w) (hrounds : Rounds i w w') : Filled i w' := by
  induction hrounds with
  | refl => exact h
  | tail _ hround ih => exact ih.round hkeys hsizes hround

theorem filled_plan (hkeys : (i.guests.map key).Nodup)
    (hsizes : ∀ g ∈ i.guests, 0 ≤ sizeVal i.toFleet g i.method) :
    ∃ p, plan i = some p ∧ ∀ m ∈ p.moves,
      val (loadAfter i.toFleet p.moves m.target i.method) ≤
        val (State.totalOf i.toFleet m.target i.method) := by
  obtain ⟨last, hrounds, -, hplan, -⟩ := plan_rounds hkeys
  have hhints := (filled_start i).hinted hkeys hsizes (hinted_hints i)
  have hlast := hhints.rounds hkeys hsizes hrounds
  have hstop := hlast.like (like_stop hkeys last) (quiet_stop hkeys last).moves
  exact ⟨planOf i last, hplan, fun m hm => (hstop.room m hm).2⟩

/-- **A plan never overfills a target**: after all its moves, no member that one of them goes to has
a larger load than its total, by the planned method and mode. -/
theorem plan_never_overfills (localeCompare : String → String → ℤ) (i : PlanInput ℚ)
    (hkeys : (i.guests.map key).Nodup) (hsizes : ∀ g ∈ i.guests, 0 ≤ State.size i.toFleet g i.method) :
    ∃ p, @plan ℚ (exact localeCompare) i = some p ∧ ∀ m ∈ p.moves,
      @loadAfter ℚ (exact localeCompare) i.toFleet p.moves m.target i.method ≤
        @State.totalOf ℚ (exact localeCompare) i.toFleet m.target i.method :=
  letI := exact localeCompare
  letI := exactRuntime localeCompare
  filled_plan hkeys hsizes

/-- The members that `fleetABC`'s moves go to. -/
theorem plan_never_overfills_fleetABC :
    ∃ p, @plan ℚ (exact compareNames) fleetABC = some p ∧ ∀ m ∈ p.moves,
      @loadAfter ℚ (exact compareNames) fleetABC.toFleet p.moves m.target fleetABC.method ≤
        @State.totalOf ℚ (exact compareNames) fleetABC.toFleet m.target fleetABC.method :=
  plan_never_overfills compareNames fleetABC (by decide) (by decide)

end IncusCloud.Balancing
