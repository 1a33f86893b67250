import IncusCloud.Balancing.Proofs.Legal
import IncusCloud.Balancing.Proofs.Values

/-!
# The search for the best move

Over exact numbers the trial moves leave every load as it was. So what the search finds fits and
lowers the spread of the state that was searched, and where it finds nothing no unit does.
-/

open List Option

namespace IncusCloud.Balancing

open Lib
open Exact

variable {source target : String}

theorem foldl_found_none {A X B : Type*} (found : A → Option B) {f : A → X → A} {P : A → Prop} {l : List X}
    (hkeep : ∀ a x, found (f a x) = none → found a = none) (hP : ∀ a, ∀ x ∈ l, P a → P (f a x))
    {a : A} (ha : P a)
    (hnone : found (l.foldl f a) = none) :
    found a = none ∧ ∀ x ∈ l, ∃ a', P a' ∧ found (f a' x) = none := by
  induction l generalizing a with
  | nil => exact ⟨hnone, fun x hx => (nomatch hx)⟩
  | cons y l ih =>
    obtain ⟨hfirst, hrest⟩ := ih (fun a x hx => hP a x (mem_cons_of_mem y hx)) (hP a y mem_cons_self ha) hnone
    refine ⟨hkeep a y hfirst, fun x hx => ?_⟩
    rcases mem_cons.mp hx with rfl | hx
    · exact ⟨a, ha, hfirst⟩
    · exact hrest x hx

variable {N : Type} [JsRuntime N] {i : PlanInput N}

/-- The unit of a guest that may go from `source` to `target`. -/
structure UnitMove (i : PlanInput N) (w : Work N) (source : String) (unit : List (Guest N))
    (target : String) : Prop where
  whole : ∃ g ∈ i.guests, unit = unitOf i g
  on : ∀ o ∈ unit, w.state.on o = source
  allowed : ∀ o ∈ unit, target ∈ w.allowed i o
  fits : w.state.fits i.toFleet unit target i.method = true
  apart : ∀ o ∈ unit, w.state.antiConflict i.toFleet o target (unit.map key) = false

theorem UnitMove.mem_unitsOn (hkeys : (i.guests.map key).Nodup) {w : Work N}
    {unit : List (Guest N)} (h : UnitMove i w source unit target) : unit ∈ unitsOn i w source := by
  obtain ⟨g, hg, rfl⟩ := h.whole
  refine Balancing.mem_unitsOn hkeys hg fun o ho => ?_
  have hne : w.allowed i o ≠ [] := ne_nil_of_mem (h.allowed o ho)
  unfold mayLeave
  simp [h.on o ho, hne]

theorem UnitMove.mem_targetsOf {w : Work N} {unit : List (Guest N)}
    (h : UnitMove i w source unit target) : target ∈ targetsOf i w unit := by
  obtain ⟨g, hg, rfl⟩ := h.whole
  have hactive := (Work.mem_allowed.mp (h.allowed g (self_mem_unitOf hg))).2.2.1
  refine mem_filter.mpr ⟨hactive, all_eq_true.mpr fun o ho => ?_⟩
  simpa using h.allowed o ho

theorem state_recordAll {unit : List (Guest N)} {w : Work N}
    (room : ((w.moves.length + unit.length : ℕ) : ℤ) ≤ i.maxMoves) (target : String) (reason : MoveReason) :
    (recordAll i w unit target reason).state = moveAll i.toFleet w.state unit target := by
  unfold recordAll moveAll
  induction unit generalizing w with
  | nil => rfl
  | cons g unit ih =>
    rw [length_cons] at room
    have hroom : ¬ (w.moves.length : ℤ) ≥ i.maxMoves := by omega
    have hrecord : (w.record i g target reason).2 =
        { w with
          moves := w.moves ++ [⟨g.project, g.name, w.state.on g, target, reason⟩]
          state := w.state.move i.toFleet g target
          moved := key g :: w.moved } := by
      unfold Work.record
      rw [if_neg hroom]
    rw [foldl_cons, foldl_cons, ih]
    · rw [hrecord]
    · rw [hrecord, length_append, length_singleton]
      omega

variable {acc : Option (Best N) × State N} {current : N}

theorem none_of_tryTarget {unit : List (Guest N)}
    (h : (tryTarget i source current unit acc target).1 = none) : acc.1 = none := by
  unfold tryTarget at h
  dsimp only at h
  split_ifs at h
  · exact h
  · exact h
  · exact h

variable [Exact N]

def spreadAfter (i : PlanInput N) (w : Work N) (unit : List (Guest N)) (target : String) : ℚ :=
  spreadVal i.toFleet (moveAll i.toFleet w.state unit target) i.method

/-- A move is a gain when it lowers the spread by more than the engine's epsilon. -/
def Gains (i : PlanInput N) (w : Work N) (current : N) (unit : List (Guest N)) (target : String) : Prop :=
  spreadAfter i w unit target < val current - 1 / 10 ^ 9

/-! ### One trial -/

structure Searched (i : PlanInput N) (w : Work N) (current : N) (acc : Option (Best N) × State N) : Prop where
  like : Alike w.state acc.2
  best : ∀ b ∈ acc.1, w.state.fits i.toFleet b.unit b.target i.method = true ∧
    Gains i w current b.unit b.target

variable {s : State N}

theorem val_trial {w : Work N} {unit : List (Guest N)} (hleaves : Leaves i w source unit)
    (hlike : Alike w.state s) (target : String) :
    val ((moveAll i.toFleet s unit target).spread i.toFleet i.method) = spreadAfter i w unit target := by
  rw [val_spread]
  exact (hlike.moveAll i.toFleet hleaves.keys hleaves.on target).spreadVal i.toFleet i.method

theorem searched_tryTarget {w : Work N} {unit : List (Guest N)} (hleaves : Leaves i w source unit)
    (hacc : Searched i w current acc) :
    Searched i w current (tryTarget i source current unit acc target) := by
  obtain ⟨best, s⟩ := acc
  have hlike : Alike w.state s := hacc.like
  have hon : ∀ g ∈ unit, s.on g = source := by
    rw [hlike.on]
    exact hleaves.on
  have hback := hlike.trans (Alike.back i.toFleet hleaves.keys hon target)
  unfold tryTarget
  dsimp only
  -- Skipped, no improvement, better, not better.
  split_ifs with hskip hworse _
  · exact hacc
  · exact ⟨hback, hacc.best⟩
  · refine ⟨hback, fun b hb => ?_⟩
    have hbest : b = ⟨unit, target, (moveAll i.toFleet s unit target).spread i.toFleet i.method,
      State.sizeOf i.toFleet unit i.method⟩ := (some.inj hb).symm
    rw [hbest]
    simp only [Bool.or_eq_true, Bool.not_eq_true', not_or, Bool.not_eq_false] at hskip
    rw [le_eq, val_sub, val_epsilon, decide_eq_true_iff, not_le, val_trial hleaves hlike] at hworse
    refine ⟨?_, hworse⟩
    rw [← hlike.fits]
    exact hskip.1
  · exact ⟨hback, hacc.best⟩

theorem not_gains_of_tryTarget {w : Work N} {unit : List (Guest N)}
    (hleaves : Leaves i w source unit) (hmove : UnitMove i w source unit target)
    (hacc : Searched i w current acc) (hnone : (tryTarget i source current unit acc target).1 = none) :
    ¬ Gains i w current unit target := by
  have hbest : acc.1 = none := none_of_tryTarget hnone
  obtain ⟨best, s⟩ := acc
  have hlike : Alike w.state s := hacc.like
  have hskip : ¬ ((!s.fits i.toFleet unit target i.method ||
      unit.any (fun g => s.antiConflict i.toFleet g target (unit.map key))) = true) := by
    have hfits : s.fits i.toFleet unit target i.method = true := by
      rw [hlike.fits]
      exact hmove.fits
    have hapart : unit.any (fun g => s.antiConflict i.toFleet g target (unit.map key)) = false := by
      refine any_eq_false.mpr fun g hg => ?_
      rw [State.antiConflict_congr i.toFleet hlike.on, hmove.apart g hg]
      exact Bool.false_ne_true
    rw [hfits, hapart]
    decide
  unfold tryTarget at hnone
  dsimp only at hnone hbest
  rw [hbest, if_neg hskip] at hnone
  split_ifs at hnone with hworse hbetter
  · rw [le_eq, val_sub, val_epsilon, decide_eq_true_iff, val_trial hleaves hlike] at hworse
    exact not_lt.mpr hworse
  · exact absurd rfl hbetter

/-! ### All trials of a source -/

theorem targetsOf_like {w : Work N} (h : Alike w.state s) (unit : List (Guest N)) :
    targetsOf i { w with state := s } unit = targetsOf i w unit := by
  unfold targetsOf
  rw [Work.allowed_congr i (show ({ w with state := s } : Work N).state.on = w.state.on from h.on) rfl]

theorem searched_tryUnit {w : Work N} {unit : List (Guest N)} (hleaves : Leaves i w source unit)
    (hacc : Searched i w current acc) :
    Searched i w current (tryUnit i w source current acc unit) := by
  exact List.foldlRecOn (motive := Searched i w current) _ _ hacc fun _ hacc' _ _ =>
    searched_tryTarget hleaves hacc'

theorem searched_bestMove (hkeys : (i.guests.map key).Nodup) (w : Work N) (source : String)
    (current : N) : Searched i w current (bestMove i w source current) := by
  refine List.foldlRecOn (motive := Searched i w current) _ _ ⟨.refl w.state, fun b hb => (nomatch hb)⟩ ?_
  exact fun acc hacc unit hunit => searched_tryUnit (leaves_unitsOn hkeys w source unit hunit) hacc

theorem not_gains_of_tryUnit {w : Work N} {unit : List (Guest N)} (hleaves : Leaves i w source unit)
    (hacc : Searched i w current acc) (hnone : (tryUnit i w source current acc unit).1 = none) :
    acc.1 = none ∧ ∀ target, UnitMove i w source unit target → ¬ Gains i w current unit target := by
  unfold tryUnit at hnone
  rw [targetsOf_like hacc.like] at hnone
  obtain ⟨hfirst, htried⟩ := foldl_found_none Prod.fst (fun _ _ => none_of_tryTarget)
    (fun _ _ _ => searched_tryTarget hleaves) hacc hnone
  refine ⟨hfirst, fun target hmove => ?_⟩
  obtain ⟨acc', hacc', hnone'⟩ := htried target hmove.mem_targetsOf
  exact not_gains_of_tryTarget hleaves hmove hacc' hnone'

theorem not_gains_of_bestMove (hkeys : (i.guests.map key).Nodup) {w : Work N}
    (hnone : (bestMove i w source current).1 = none) {unit : List (Guest N)}
    (hmove : UnitMove i w source unit target) : ¬ Gains i w current unit target := by
  have hkeep : ∀ (acc : Option (Best N) × State N) (u : List (Guest N)),
      (tryUnit i w source current acc u).1 = none → acc.1 = none := by
    intro acc u h
    exact (foldl_found_none Prod.fst (P := fun _ => True) (fun _ _ => none_of_tryTarget) (fun _ _ _ h => h)
      trivial h).1
  have hleaves : ∀ u ∈ unitsOn i w source, Leaves i w source u := leaves_unitsOn hkeys w source
  have hstart : Searched i w current ((none, w.state) : Option (Best N) × State N) :=
    ⟨.refl w.state, fun b hb => (nomatch hb)⟩
  obtain ⟨-, htried⟩ :=
    foldl_found_none Prod.fst hkeep (fun _ u hu => searched_tryUnit (hleaves u hu)) hstart hnone
  have hunit := hmove.mem_unitsOn hkeys
  obtain ⟨acc', hacc', hnone'⟩ := htried unit hunit
  exact (not_gains_of_tryUnit (hleaves unit hunit) hacc' hnone').2 target hmove

/-! ### All sources -/

theorem UnitMove.like {w : Work N} {unit : List (Guest N)}
    (h : UnitMove i w source unit target) (hlike : Alike w.state s) :
    UnitMove i { w with state := s } source unit target := by
  have hallowed : ({ w with state := s } : Work N).allowed i = w.allowed i :=
    Work.allowed_congr i hlike.on rfl
  refine ⟨h.whole, ?_, ?_, ?_, fun o ho => ?_⟩
  · rw [show ({ w with state := s } : Work N).state.on = w.state.on from hlike.on]
    exact h.on
  · rw [hallowed]
    exact h.allowed
  · exact (hlike.fits i.toFleet unit target i.method).trans h.fits
  · exact (State.antiConflict_congr i.toFleet hlike.on o target (unit.map key)).trans (h.apart o ho)

theorem spreadAfter_like (hkeys : (i.guests.map key).Nodup) {w : Work N}
    {unit : List (Guest N)} (h : UnitMove i w source unit target) (hlike : Alike w.state s) :
    spreadAfter i { w with state := s } unit target = spreadAfter i w unit target := by
  obtain ⟨g, hg, hunit⟩ := h.whole
  have hnodup : (unit.map key).Nodup := by
    rw [hunit]
    exact keys_unitOf hkeys g
  exact (hlike.moveAll i.toFleet hnodup h.on target).spreadVal i.toFleet i.method

structure Outcome (i : PlanInput N) (w : Work N) (current : N) (sources : List String)
    (result : Option (Best N) × Work N) : Prop where
  like : Alike w.state result.2.state
  best : ∀ b ∈ result.1, result.2.state.fits i.toFleet b.unit b.target i.method = true ∧
    Gains i result.2 current b.unit b.target
  none : result.1 = none → ∀ source ∈ sources, ∀ unit target,
    UnitMove i w source unit target → ¬ Gains i w current unit target

theorem Searched.after {w : Work N} {b : Best N}
    (hadm : (b.unit.map key).Nodup) (hon : ∀ g ∈ b.unit, w.state.on g = source)
    (h : Searched i w current (some b, s)) :
    s.fits i.toFleet b.unit b.target i.method = true ∧
      Gains i { w with state := s } current b.unit b.target := by
  obtain ⟨hfits, hgains⟩ := h.best b rfl
  refine ⟨(h.like.fits i.toFleet b.unit b.target i.method).trans hfits, ?_⟩
  unfold Gains spreadAfter at hgains ⊢
  rw [(h.like.moveAll i.toFleet hadm hon b.target).spreadVal i.toFleet i.method]
  exact hgains

theorem firstBest_outcome (hkeys : (i.guests.map key).Nodup) (current : N) (sources : List String)
    (w : Work N) : Outcome i w current sources (firstBest i current w sources) := by
  induction sources generalizing w with
  | nil => exact ⟨.refl w.state, fun b hb => (nomatch hb), fun _ source hs => (nomatch hs)⟩
  | cons source rest ih =>
    have hsearched := searched_bestMove hkeys w source current
    have hfound := found_bestMove hkeys w source current
    have hnone : (bestMove i w source current).1 = none → ∀ unit target,
        UnitMove i w source unit target → ¬ Gains i w current unit target :=
      fun h _ _ => not_gains_of_bestMove hkeys h
    unfold firstBest
    split
    · rename_i b s hbs
      rw [hbs] at hsearched hfound
      obtain ⟨-, hadm⟩ := hfound.best b rfl
      obtain ⟨_, hfrom⟩ := hadm.together
      refine ⟨hsearched.like, fun b' hb' => ?_, fun h => (nomatch h)⟩
      rw [← some.inj hb']
      exact hsearched.after hadm.keys hfrom
    · rename_i s hbs
      rw [hbs] at hsearched hnone
      have hlike : Alike w.state s := hsearched.like
      have hrest := ih { w with state := s }
      refine ⟨hlike.trans hrest.like, hrest.best, fun h source' hs unit target hmove => ?_⟩
      rcases mem_cons.mp hs with rfl | hs
      · exact hnone rfl unit target hmove
      · have hafter := hrest.none h source' hs unit target (hmove.like hlike)
        unfold Gains at hafter ⊢
        rw [spreadAfter_like hkeys hmove hlike] at hafter
        exact hafter

/-! ### Rounds -/

structure RoundOf (i : PlanInput N) (w w₁ : Work N) (unit : List (Guest N)) (target : String) : Prop where
  nonempty : unit ≠ []
  quiet : Quiet w w₁
  like : Alike w.state w₁.state
  admissible : Admissible i w₁ unit target
  fits : w₁.state.fits i.toFleet unit target i.method = true
  gains : spreadAfter i w₁ unit target < spreadVal i.toFleet w.state i.method - 1 / 10 ^ 9
  room : ((w₁.moves.length + unit.length : ℕ) : ℤ) ≤ i.maxMoves

theorem round_exact (hkeys : (i.guests.map key).Nodup) {w w' : Work N} (h : round i w = some w') :
    ∃ w₁ unit target, RoundOf i w w₁ unit target ∧ w' = recordAll i w₁ unit target .balance := by
  obtain ⟨b, w₁, hw₁, hroom, hw'⟩ := round_eq h
  have hspec := firstBest_spec hkeys (w.state.spread i.toFleet i.method) (sources i w.state) w
  have houtcome := firstBest_outcome hkeys (w.state.spread i.toFleet i.method) (sources i w.state) w
  rw [hw₁] at hspec houtcome
  obtain ⟨hquiet, hbest⟩ := hspec
  obtain ⟨hfits, hgains⟩ := houtcome.best b rfl
  unfold Gains at hgains
  rw [val_spread] at hgains
  obtain ⟨hne, hadm⟩ := hbest b rfl
  exact ⟨w₁, b.unit, b.target, ⟨hne, hquiet, houtcome.like, hadm, hfits, hgains, hroom⟩, hw'⟩

theorem spread_round (hkeys : (i.guests.map key).Nodup) {w w' : Work N} (h : round i w = some w') :
    spreadVal i.toFleet w'.state i.method < spreadVal i.toFleet w.state i.method - 1 / 10 ^ 9 := by
  obtain ⟨w₁, unit, target, hround, rfl⟩ := round_exact hkeys h
  rw [state_recordAll hround.room]
  exact hround.gains

theorem like_stop (hkeys : (i.guests.map key).Nodup) (w : Work N) : Alike w.state (stop i w).state := by
  have houtcome := firstBest_outcome hkeys (w.state.spread i.toFleet i.method) (sources i w.state) w
  unfold stop
  dsimp only
  split_ifs
  · exact .refl w.state
  · split
    · rename_i w₁ hw₁
      rw [hw₁] at houtcome
      exact houtcome.like
    · rename_i b w₁ hw₁
      rw [hw₁] at houtcome
      exact houtcome.like

/-!
### The balancing loop only improves, and ends at a local optimum

Every round lowers the spread, so a plan of rounds alone leaves a lower one. The loop ends when the
spread is within the balanciness, at `maxMoves`, or when the search finds nothing; and then no unit
that may move would lower the spread.
-/

variable {N : Type} [JsRuntime N] {i : PlanInput N}

/-! ### Inputs without hints -/

def NoHints (i : PlanInput N) : Prop :=
  ∀ g ∈ i.guests, g.hints.pin.getD [] = [] ∧ given g.hints.affinity = none ∧ given g.hints.antiAffinity = none

omit [JsRuntime N] in
theorem NoHints.not_cause (h : NoHints i) {w : Work N} {g : Guest N} (hg : g ∈ i.guests)
    (target : String) : ¬ Cause i w g target := by
  obtain ⟨hpin, haffinity, hanti⟩ := h g hg
  intro hcause
  cases hcause with
  | pinned hpinned => exact hpinned hpin
  | spread hspread =>
    rw [hanti] at hspread
    cases hspread
  | gathered hgathered =>
    rw [haffinity] at hgathered
    cases hgathered

theorem NoHints.hints_eq (h : NoHints i) :
    (hints i).state = (Work.start i).state ∧ (hints i).moves = (Work.start i).moves := by
  have hrun := hinted_hints i
  generalize hints i = w at hrun
  induction hrun with
  | refl => exact ⟨rfl, rfl⟩
  | tail _ hstep ih =>
    cases hstep with
    | noted state moves moved => exact ⟨state.trans ih.1, moves.trans ih.2⟩
    | moved reason hg allowed fits room cause => exact absurd cause (h.not_cause hg _)

variable [Exact N]

/-! ### Improvement -/

theorem spread_rounds (hkeys : (i.guests.map key).Nodup) {w w' : Work N} (h : Rounds i w w') :
    w' = w ∨ spreadVal i.toFleet w'.state i.method < spreadVal i.toFleet w.state i.method := by
  induction h with
  | refl => exact .inl rfl
  | tail _ hround ih =>
    have hless := spread_round hkeys hround
    right
    rcases ih with rfl | hlower
    · linarith
    · linarith

theorem NoHints.improves (h : NoHints i) (hkeys : (i.guests.map key).Nodup) {p : Plan N}
    (hp : plan i = some p) :
    val p.after ≤ val p.before ∧ (p.moves ≠ [] → val p.after < val p.before) := by
  obtain ⟨last, hrounds, -, hplan, -⟩ := plan_rounds hkeys
  obtain rfl := some.inj (hp.symm.trans hplan)
  obtain ⟨hstate, hmoves⟩ := h.hints_eq
  have hbefore : val (planOf i last).before = spreadVal i.toFleet (hints i).state i.method := by
    rw [hstate]
    exact val_spread i.toFleet (State.new i.toFleet) i.method
  have hafter : val (planOf i last).after = spreadVal i.toFleet last.state i.method := by
    rw [← (like_stop hkeys last).spreadVal]
    exact val_spread i.toFleet (stop i last).state i.method
  have hkept : (planOf i last).moves = last.moves := (quiet_stop hkeys last).moves
  rw [hbefore, hafter, hkept]
  rcases spread_rounds hkeys hrounds with hsame | hlower
  · rw [hsame]
    refine ⟨le_refl _, fun hne => ?_⟩
    exact absurd hmoves hne
  · exact ⟨hlower.le, fun _ => hlower⟩

/-! ### The end of the loop -/

theorem UnitMove.before_stop (hkeys : (i.guests.map key).Nodup) {w : Work N}
    {unit : List (Guest N)} (h : UnitMove i (stop i w) source unit target) :
      UnitMove i w source unit target := by
  have hquiet := quiet_stop hkeys w
  have hlike := like_stop hkeys w
  have hallowed : (stop i w).allowed i = w.allowed i := Work.allowed_congr i hquiet.on hquiet.moved
  refine ⟨h.whole, ?_, ?_, ?_, fun o ho => ?_⟩
  · rw [← hquiet.on]
    exact h.on
  · rw [← hallowed]
    exact h.allowed
  · exact (hlike.fits i.toFleet unit target i.method).symm.trans h.fits
  · exact (State.antiConflict_congr i.toFleet hquiet.on o target (unit.map key)).symm.trans (h.apart o ho)

theorem stop_optimal (hkeys : (i.guests.map key).Nodup) {w : Work N} (hcapped : (stop i w).capped = false) :
    val ((stop i w).state.spread i.toFleet i.method) ≤ val i.balanciness ∨
      ∀ source ∈ i.activeNames, ∀ unit target, UnitMove i (stop i w) source unit target →
        ¬ val ((moveAll i.toFleet (stop i w).state unit target).spread i.toFleet i.method) <
          val ((stop i w).state.spread i.toFleet i.method) - 1 / 10 ^ 9 := by
  have hlike := like_stop hkeys w
  by_cases hdone : (JsRuntime.le (w.state.spread i.toFleet i.method) i.balanciness || w.capped) = true
  · left
    have hstop : stop i w = w := by
      unfold stop
      rw [if_pos hdone]
    rw [hstop] at hcapped ⊢
    rw [hcapped, Bool.or_false, le_eq, decide_eq_true_iff] at hdone
    exact hdone
  · right
    have houtcome := firstBest_outcome hkeys (w.state.spread i.toFleet i.method) (sources i w.state) w
    have hfound : (firstBest i (w.state.spread i.toFleet i.method) w (sources i w.state)).1 = none := by
      cases hbest : firstBest i (w.state.spread i.toFleet i.method) w (sources i w.state) with
      | mk best w₁ =>
        cases best with
        | none => rfl
        | some b =>
          -- Found and still no round: the plan is full.
          have hfull : (stop i w).capped = true := by
            unfold stop
            rw [if_neg hdone, hbest]
          rw [hcapped] at hfull
          cases hfull
    intro source hsource unit target hmove hgain
    have hbefore := hmove.before_stop hkeys
    have hnodup : (unit.map key).Nodup := by
      obtain ⟨g, -, hunit⟩ := hbefore.whole
      rw [hunit]
      exact keys_unitOf hkeys g
    have hmem : source ∈ sources i w.state := (mem_insertionSort _).mpr hsource
    apply houtcome.none hfound source hmem unit target hbefore
    unfold Gains spreadAfter
    rw [val_spread, ← hlike.spreadVal,
      ← (hlike.moveAll i.toFleet hnodup hbefore.on target).spreadVal, ← val_spread, ← val_spread]
    exact hgain

theorem loop_optimal (hkeys : (i.guests.map key).Nodup) :
    (∃ last, Rounds i (hints i) last ∧ round i last = none ∧
      (∀ fuel > i.guests.length, balance i fuel (hints i) = some (stop i last)) ∧
        plan i = some (planOf i last) ∧
      ((stop i last).capped = false →
        val ((stop i last).state.spread i.toFleet i.method) ≤ val i.balanciness ∨
          ∀ source ∈ i.activeNames, ∀ unit target, UnitMove i (stop i last) source unit target →
            ¬ val ((moveAll i.toFleet (stop i last).state unit target).spread i.toFleet i.method) <
              val ((stop i last).state.spread i.toFleet i.method) - 1 / 10 ^ 9)) ∧
    (∀ fuel w, balance i (fuel + 1) w = (round i w).elim (some (stop i w)) (balance i fuel)) ∧
    (∀ w w', round i w = some w' → val (w'.state.spread i.toFleet i.method) <
      val (w.state.spread i.toFleet i.method) - 1 / 10 ^ 9) ∧
    (NoHints i → ∀ p, plan i = some p → val p.after ≤ val p.before ∧
      (p.moves ≠ [] → val p.after < val p.before)) := by
  obtain ⟨last, hrounds, hnone, hplan, hfuel⟩ := plan_rounds hkeys
  refine ⟨⟨last, hrounds, hnone, hfuel, hplan, stop_optimal hkeys⟩, balance_succ i, fun w w' hround => ?_, ?_⟩
  · rw [val_spread, val_spread]
    exact spread_round hkeys hround
  · exact fun hhints p hp => hhints.improves hkeys hp

/-- **The balancing loop ends, only improves and stops at a local optimum.**  It makes rounds until
there is none, with any fuel above the number of guests, and where `maxMoves` did not stop it, the
spread is within the balanciness, or no unit of a guest that may go from an active member to a
target would lower it by more than the engine's epsilon. Each round lowers it by more, and without
hints so does the plan. -/
theorem balance_optimal (localeCompare : String → String → ℤ) (i : PlanInput ℚ)
    (hkeys : (i.guests.map key).Nodup) :
    letI := exact localeCompare
    (∃ last, Rounds i (hints i) last ∧ round i last = none ∧
      (∀ fuel > i.guests.length, balance i fuel (hints i) = some (stop i last)) ∧
        plan i = some (planOf i last) ∧
      ((stop i last).capped = false →
        (planOf i last).after ≤ i.balanciness ∨
          ∀ source ∈ i.activeNames, ∀ unit target, UnitMove i (stop i last) source unit target →
            ¬ (moveAll i.toFleet (stop i last).state unit target).spread i.toFleet i.method <
              (planOf i last).after - 1 / 10 ^ 9)) ∧
    (∀ fuel w, balance i (fuel + 1) w = (round i w).elim (some (stop i w)) (balance i fuel)) ∧
    (∀ w w', round i w = some w' →
      w'.state.spread i.toFleet i.method < w.state.spread i.toFleet i.method - 1 / 10 ^ 9) ∧
    (NoHints i → ∀ p, plan i = some p → p.after ≤ p.before ∧ (p.moves ≠ [] → p.after < p.before)) :=
  letI := exact localeCompare
  letI := exactRuntime localeCompare
  loop_optimal hkeys

def plainAB : PlanInput ℚ where
  members := [memberOf "a" 12 false, memberOf "b" 3 false]
  guests := [guestOf "big" "a" 4 {}, guestOf "small" "a" 1 {}]
  mode := .used
  method := .memory
  balanciness := 10
  maxMoves := 10

/-- Its plan moves one of them, and so improves. -/
theorem balance_optimal_plainAB :
    ∃ p, @plan ℚ (exact compareNames) plainAB = some p ∧ p.moves ≠ [] ∧ p.after < p.before := by
  have hloop := balance_optimal compareNames plainAB (by decide)
  have hhints : NoHints plainAB := by
    unfold NoHints
    decide
  have hmoves : ((@plan ℚ (exact compareNames) plainAB).map fun p => p.moves) =
      some [⟨"p", "big", "a", "b", .balance⟩] := by decide +kernel
  obtain ⟨p, hp, hpmoves⟩ := map_eq_some_iff.mp hmoves
  have hne : p.moves ≠ [] := by
    rw [hpmoves]
    exact cons_ne_nil _ _
  exact ⟨p, hp, hne, (hloop.2.2.2 hhints p hp).2 hne⟩

end IncusCloud.Balancing
