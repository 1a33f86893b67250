import IncusCloud.Balancing.Plan

/-!
# A plan as steps

Whatever the phases do, they do it in two ways: they change loads and notes, or they move one unit
of guests to a target all of them may go to, where none meets another of its anti-affinity group.
The trial moves of `bestMove` are undone, so they only leave traces in the loads.
-/

open Option

namespace IncusCloud.Balancing

open Lib
open Relation (ReflTransGen)

variable {N : Type} {target : String}

theorem ite_mem_cons {α β : Type*} [DecidableEq α] (a b : α) (l : List α) (x y : β) :
    (if a ∈ l then x else if a = b then x else y) = if a ∈ b :: l then x else y := by
  by_cases hl : a ∈ l
  · rw [if_pos hl, if_pos (List.mem_cons_of_mem _ hl)]
  · by_cases hb : a = b
    · rw [if_neg hl, if_pos hb, if_pos (hb ▸ List.mem_cons_self)]
    · rw [if_neg hl, if_neg hb, if_neg (by simp [hb, hl])]

/-! ### Where guests are -/

theorem State.on_congr (s : State N) {g o : Guest N} (h : key g = key o) : s.on g = s.on o := by
  unfold on
  rw [h]

/-! ### What a guest's moves depend on -/

theorem Work.allowed_congr (i : PlanInput N) {w w' : Work N} (hon : w'.state.on = w.state.on)
    (hmoved : w'.moved = w.moved) : w'.allowed i = w.allowed i := by
  funext g
  unfold allowed
  rw [hon, hmoved]

variable (c : Fleet N)

theorem State.antiConflict_congr {s s' : State N} (hon : s'.on = s.on)
    (g : Guest N) (member : String) (ignore : List String) :
    s'.antiConflict c g member ignore = s.antiConflict c g member ignore := by
  unfold antiConflict
  rw [hon]

theorem State.antiConflict_eq_false_iff {c : Fleet N} {s : State N} {g : Guest N} {member : String}
    {ignore : List String} :
    s.antiConflict c g member ignore = false ↔
      ∀ group, given g.hints.antiAffinity = some group → ∀ o ∈ c.guests, key o ≠ key g →
        key o ∉ ignore → o.project = g.project → o.hints.antiAffinity = some group →
          s.on o ≠ member := by
  unfold antiConflict
  constructor
  · intro h group hgroup o ho hne hignore hproject hanti hon
    rw [hgroup] at h
    have := List.any_eq_false.mp h o ho
    simp [hne, hignore, hproject, hanti, hon] at this
  · intro h
    split
    · rfl
    · rename_i group hgroup
      refine List.any_eq_false.mpr fun o ho => ?_
      have := h group hgroup o ho
      simp only [Bool.and_eq_true, decide_eq_true_eq, Bool.not_eq_true', List.contains_eq_mem,
        decide_eq_false_iff_not, not_and, and_imp]
      exact this

theorem State.antiConflict_ignore {c : Fleet N} {s : State N} {g : Guest N} {member : String}
    (h : s.antiConflict c g member = false) (ignore : List String) :
    s.antiConflict c g member ignore = false := by
  rw [antiConflict_eq_false_iff] at h ⊢
  exact fun group hgroup o ho hne _ => h group hgroup o ho hne (by simp)

variable {i : PlanInput N}

theorem Work.mem_allowed {w : Work N} {g : Guest N} :
    target ∈ w.allowed i g ↔
      (g.movable = true ∧ g.hints.balance ≠ some false ∧ key g ∉ w.moved) ∧
      (i.member? (w.state.on g)).any (·.maintenance) = false ∧ target ∈ i.activeNames ∧
      target ≠ w.state.on g ∧ (g.hints.pin.getD [] = [] ∨ target ∈ g.hints.pin.getD []) := by
  unfold allowed
  split_ifs with hfixed hmaintenance
  · constructor
    · exact fun h => (nomatch h)
    · rintro ⟨⟨hmovable, hbalance, hmoved⟩, -⟩
      rcases hfixed with h | h | h
      · rw [hmovable] at h
        cases h
      · exact absurd h hbalance
      · exact absurd h hmoved
  · constructor
    · exact fun h => (nomatch h)
    · rintro ⟨-, h, -⟩
      rw [hmaintenance] at h
      cases h
  · simp only [not_or, Bool.not_eq_false] at hfixed
    have hmaintenance := eq_false_of_ne_true hmaintenance
    rw [List.mem_filter]
    simp only [hfixed, hmaintenance, Bool.and_eq_true, decide_eq_true_eq, Bool.or_eq_true,
      List.isEmpty_iff, List.contains_eq_mem, not_false_eq_true, and_self, true_and, ne_eq]

theorem mem_of_mem_groupBy {f : Guest N → String} {gs : List (Guest N)}
    {e : String × List (Guest N)} (he : e ∈ groupBy f gs) {g : Guest N} (hg : g ∈ e.2) :
    g ∈ gs := by
  have key : ∀ e ∈ groupBy f gs, ∀ g ∈ e.2, g ∈ gs := by
    unfold groupBy
    refine List.foldlRecOn (motive := fun m : OrdMap String (List (Guest N)) =>
      ∀ e ∈ m, ∀ g ∈ e.2, g ∈ gs) gs _ (fun e he => (nomatch he)) fun m hm x hx e he g hg => ?_
    rcases OrdMap.mem_set he with rfl | he
    · -- The group of `x`: what it had, and `x`.
      rcases List.mem_append.mp hg with hg | hg
      · cases hget : m.get (f x) with
        | none => simp [hget] at hg
        | some l =>
          rw [hget] at hg
          exact hm _ (OrdMap.mem_of_get hget) g hg
      · rw [List.mem_singleton.mp hg]
        exact hx
    · exact hm e he g hg
  exact key e he g hg

/-! ### What may move, and what stays -/

structure Admissible (i : PlanInput N) (w : Work N) (unit : List (Guest N)) (target : String) :
    Prop where
  guests : ∀ g ∈ unit, g ∈ i.guests
  keys : (unit.map key).Nodup
  together : ∃ source, ∀ g ∈ unit, w.state.on g = source
  allowed : ∀ g ∈ unit, target ∈ w.allowed i g
  apart : ∀ g ∈ unit, w.state.antiConflict i.toFleet g target (unit.map key) = false

/-- Only loads, notes and `capped` may differ. -/
structure Quiet (w w' : Work N) : Prop where
  on : w'.state.on = w.state.on
  moves : w'.moves = w.moves
  moved : w'.moved = w.moved

namespace Quiet

variable {w w' w'' : Work N}

theorem refl (w : Work N) : Quiet w w := ⟨rfl, rfl, rfl⟩

theorem trans (h : Quiet w w') (h' : Quiet w' w'') : Quiet w w'' :=
  ⟨h'.on.trans h.on, h'.moves.trans h.moves, h'.moved.trans h.moved⟩

theorem admissible {unit : List (Guest N)} (h : Quiet w w')
    (hadm : Admissible i w unit target) : Admissible i w' unit target := by
  obtain ⟨source, hsource⟩ := hadm.together
  refine ⟨hadm.guests, hadm.keys, ⟨source, fun g hg => ?_⟩, fun g hg => ?_, fun g hg => ?_⟩
  · rw [h.on]
    exact hsource g hg
  · rw [Work.allowed_congr i h.on h.moved]
    exact hadm.allowed g hg
  · rw [State.antiConflict_congr i.toFleet h.on]
    exact hadm.apart g hg

end Quiet

theorem quiet_note (w : Work N) (text : String) : Quiet w (w.note text) := ⟨rfl, rfl, rfl⟩

theorem quiet_cap (w : Work N) : Quiet w { w with capped := true } := ⟨rfl, rfl, rfl⟩

variable [JsRuntime N]

/-! ### Moving there and back -/

@[simp] theorem State.on_move (s : State N) (g : Guest N) (target : String)
    (o : Guest N) : (s.move c g target).on o = if key o = key g then target else s.on o := by
  unfold State.on State.move
  rw [OrdMap.get_set]
  split_ifs
  · rfl
  · rfl

theorem on_moveAll (unit : List (Guest N)) (target : String) (s : State N)
    (o : Guest N) :
    (moveAll c s unit target).on o = if key o ∈ unit.map key then target else s.on o := by
  unfold moveAll
  induction unit generalizing s with
  | nil => simp
  | cons g unit ih =>
    rw [List.foldl_cons, ih, State.on_move, List.map_cons]
    exact ite_mem_cons _ _ _ _ _

theorem on_moveAll_back {unit : List (Guest N)} {source : String} {s : State N}
    (hunit : ∀ g ∈ unit, s.on g = source) (target : String) :
    (moveAll c (moveAll c s unit target) unit source).on = s.on := by
  funext o
  rw [on_moveAll, on_moveAll]
  split_ifs with h
  · obtain ⟨g, hg, hk⟩ := List.mem_map.mp h
    rw [← hunit g hg]
    exact s.on_congr hk
  · rfl

/-! ### Steps -/

inductive Step (i : PlanInput N) (w : Work N) : Work N → Prop
  | quiet {w' : Work N} (h : Quiet w w') : Step i w w'
  | shift {unit : List (Guest N)} {target : String} (reason : MoveReason)
      (h : Admissible i w unit target)
      (room : ((w.moves.length + unit.length : ℕ) : ℤ) ≤ i.maxMoves) :
      Step i w (recordAll i w unit target reason)

abbrev Steps (i : PlanInput N) : Work N → Work N → Prop := ReflTransGen (Step i)

theorem Quiet.steps {w w' : Work N} (h : Quiet w w') : Steps i w w' :=
  .single (.quiet h)

theorem steps_foldl {A X : Type} (work : A → Work N) {f : A → X → A} {l : List X}
    (h : ∀ a, ∀ x ∈ l, Steps i (work a) (work (f a x))) (a : A) :
    Steps i (work a) (work (l.foldl f a)) :=
  List.foldlRecOn (motive := fun b => Steps i (work a) (work b)) l f .refl
    fun b hb x hx => hb.trans (h b x hx)

theorem steps_record {w : Work N} {g : Guest N}
    (hg : g ∈ i.guests) (hallowed : target ∈ w.allowed i g)
    (hapart : w.state.antiConflict i.toFleet g target = false) (reason : MoveReason) :
    Steps i w (w.record i g target reason).2 := by
  have hone : (w.record i g target reason).2 = recordAll i w [g] target reason := rfl
  by_cases hfull : (w.moves.length : ℤ) ≥ i.maxMoves
  · -- Full: only `capped` is set.
    unfold Work.record
    rw [if_pos hfull]
    exact (quiet_cap w).steps
  · rw [hone]
    refine .single (.shift reason ⟨?_, ?_, ⟨w.state.on g, ?_⟩, ?_, ?_⟩ ?_)
    · simpa using hg
    · simp
    · simp
    · simpa using hallowed
    · simpa using State.antiConflict_ignore hapart [key g]
    · simp only [List.length_singleton]
      omega

/-! ### The first three phases -/

theorem mem_sortedGuests {g : Guest N} : g ∈ sortedGuests i ↔ g ∈ i.guests :=
  List.mem_insertionSort _

theorem leastLoaded_spec {s : State N} {g : Guest N} {targets : List String}
    (h : given (leastLoaded i s g targets) = some target) :
    target ∈ targets ∧ s.antiConflict i.toFleet g target = false := by
  obtain ⟨h, -⟩ := filter_eq_some_iff.mp h
  have hmem := (List.mem_insertionSort _).mp (List.mem_of_mem_head? h)
  obtain ⟨htarget, hfits⟩ := List.mem_filter.mp hmem
  exact ⟨htarget, by simpa using (Bool.and_eq_true_iff.mp hfits).2⟩

theorem steps_pinGuest {g : Guest N} (hg : g ∈ i.guests) (w : Work N) :
    Steps i w (pinGuest i w g) := by
  unfold pinGuest
  dsimp only
  split_ifs
  · exact .refl
  · split
    · rename_i target htarget
      obtain ⟨hallowed, hapart⟩ := leastLoaded_spec htarget
      exact steps_record hg hallowed hapart _
    · exact (quiet_note w _).steps

theorem steps_pins (i : PlanInput N) (w : Work N) : Steps i w (pins i w) :=
  steps_foldl (fun w => w) (fun w _ hg => steps_pinGuest (mem_sortedGuests.mp hg) w) w

theorem steps_spreadGuest {g : Guest N} (hg : g ∈ i.guests)
    (acc : Work N × List String) : Steps i acc.1 (spreadGuest i acc g).1 := by
  obtain ⟨w, seen⟩ := acc
  unfold spreadGuest
  dsimp only
  split_ifs
  · split
    · rename_i target htarget
      obtain ⟨hmem, hapart⟩ := leastLoaded_spec htarget
      have hrecord := steps_record hg (List.mem_filter.mp hmem).1 hapart .antiAffinity
      split
      · rename_i w' hw'
        rwa [hw'] at hrecord
      · rename_i w' hw'
        rwa [hw'] at hrecord
    · exact .refl
  · exact .refl

theorem steps_spreadGroup {members : List (Guest N)}
    (hmembers : ∀ g ∈ members, g ∈ i.guests) (w : Work N) : Steps i w (spreadGroup i w members) := by
  unfold spreadGroup
  dsimp only
  refine ReflTransGen.trans ?_
    (steps_foldl Prod.fst (fun acc g hg => steps_spreadGuest (hmembers g hg) acc) _)
  split_ifs
  · exact (quiet_note w _).steps
  · exact .refl

theorem steps_antiAffinity (i : PlanInput N) (w : Work N) : Steps i w (antiAffinity i w) :=
  steps_foldl (fun w => w) (fun w _ he => steps_spreadGroup (fun _ hg =>
    mem_sortedGuests.mp (List.mem_filter.mp (mem_of_mem_groupBy he hg)).1) w) w

theorem steps_gatherGuest {g : Guest N} (hg : g ∈ i.guests) (home : String)
    (w : Work N) : Steps i w (gatherGuest i home w g) := by
  unfold gatherGuest
  split_ifs with _ h
  · exact .refl
  · simp only [Bool.and_eq_true, List.contains_eq_mem, decide_eq_true_eq, Bool.not_eq_true'] at h
    exact steps_record hg h.1.1 h.2 _
  · exact (quiet_note w _).steps

theorem steps_gatherGroup {members : List (Guest N)}
    (hmembers : ∀ g ∈ members, g ∈ i.guests) (w : Work N) : Steps i w (gatherGroup i w members) := by
  unfold gatherGroup
  dsimp only
  split_ifs
  · exact .refl
  · split
    · exact .refl
    · rename_i home _
      exact steps_foldl (fun w => w) (fun w g hg => steps_gatherGuest (hmembers g hg) home w) w

theorem steps_affinity (i : PlanInput N) (w : Work N) : Steps i w (affinity i w) :=
  steps_foldl (fun w => w) (fun w _ he => steps_gatherGroup (fun _ hg =>
    mem_sortedGuests.mp (List.mem_filter.mp (mem_of_mem_groupBy he hg)).1) w) w

theorem steps_hints (i : PlanInput N) : Steps i (.start i) (hints i) :=
  ((steps_pins i _).trans (steps_antiAffinity i _)).trans (steps_affinity i _)

/-!
### What the first three phases do

They note things, or they move a guest to where it fits; and then they have a cause: the guest is
pinned, it is of an anti-affinity group, or one of its affinity group is at the target.
-/

variable {N : Type}

def groupName (g : Guest N) : String := g.project ++ "/" ++ g.hints.affinity.getD ""

/-- Why one of the first three phases moves a guest to `target`. -/
inductive Cause (i : PlanInput N) (w : Work N) (g : Guest N) (target : String) : Prop
  | pinned (h : g.hints.pin.getD [] ≠ [])
  | spread (h : (given g.hints.antiAffinity).isSome = true)
  | gathered (h : (given g.hints.affinity).isSome = true) {o : Guest N} (ho : o ∈ i.guests)
      (haffinity : (given o.hints.affinity).isSome = true) (hname : groupName o = groupName g)
      (hon : w.state.on o = target)

theorem eq_of_mem_groupBy {f : Guest N → String} {gs : List (Guest N)} {e : String × List (Guest N)}
    (he : e ∈ groupBy f gs) {g : Guest N} (hg : g ∈ e.2) : f g = e.1 := by
  have hall : ∀ e ∈ groupBy f gs, ∀ g ∈ e.2, f g = e.1 := by
    unfold groupBy
    refine List.foldlRecOn (motive := fun m : OrdMap String (List (Guest N)) => ∀ e ∈ m, ∀ g ∈ e.2,
      f g = e.1) gs _
      (fun e he => (nomatch he)) fun m hm x _ e he g hg => ?_
    rcases OrdMap.mem_set he with rfl | he
    · rcases List.mem_append.mp hg with hg | hg
      · cases hget : m.get (f x) with
        | none => simp [hget] at hg
        | some l =>
          rw [hget] at hg
          exact hm _ (OrdMap.mem_of_get hget) g hg
      · rw [List.mem_singleton.mp hg]
    · exact hm e he g hg
  exact hall e he g hg

variable [JsRuntime N] {i : PlanInput N}

inductive Hinted (i : PlanInput N) (w : Work N) : Work N → Prop
  | noted {w' : Work N} (state : w'.state = w.state) (moves : w'.moves = w.moves)
      (moved : w'.moved = w.moved) : Hinted i w w'
  | moved {g : Guest N} {target : String} (reason : MoveReason) (hg : g ∈ i.guests)
      (allowed : target ∈ w.allowed i g) (fits : w.state.fits i.toFleet [g] target i.method = true)
      (room : ((w.moves.length + [g].length : ℕ) : ℤ) ≤ i.maxMoves) (cause : Cause i w g target) :
      Hinted i w (recordAll i w [g] target reason)

abbrev AllHinted (i : PlanInput N) : Work N → Work N → Prop := ReflTransGen (Hinted i)

theorem hinted_note (w : Work N) (text : String) : AllHinted i w (w.note text) := .single (.noted rfl rfl rfl)

theorem hinted_record {w : Work N} {g : Guest N} (hg : g ∈ i.guests)
    (allowed : target ∈ w.allowed i g) (fits : w.state.fits i.toFleet [g] target i.method = true)
    (cause : Cause i w g target) (reason : MoveReason) : AllHinted i w (w.record i g target reason).2 := by
  by_cases hfull : (w.moves.length : ℤ) ≥ i.maxMoves
  · unfold Work.record
    rw [if_pos hfull]
    exact .single (.noted rfl rfl rfl)
  · have hroom : ((w.moves.length + [g].length : ℕ) : ℤ) ≤ i.maxMoves := by
      rw [List.length_singleton]
      omega
    exact .single (.moved reason hg allowed fits hroom cause)

theorem hinted_foldl {A X : Type} (work : A → Work N) {f : A → X → A} {l : List X}
    (h : ∀ a, ∀ x ∈ l, AllHinted i (work a) (work (f a x))) (a : A) : AllHinted i (work a)
    (work (l.foldl f a)) :=
  List.foldlRecOn (motive := fun b => AllHinted i (work a) (work b)) l f .refl fun b hb x hx =>
    hb.trans (h b x hx)

theorem leastLoaded_fits {s : State N} {g : Guest N} {targets : List String}
    (h : given (leastLoaded i s g targets) = some target) :
    target ∈ targets ∧ s.fits i.toFleet [g] target i.method = true := by
  obtain ⟨h, -⟩ := filter_eq_some_iff.mp h
  have hmem := (List.mem_insertionSort _).mp (List.mem_of_mem_head? h)
  obtain ⟨htarget, hfits⟩ := List.mem_filter.mp hmem
  exact ⟨htarget, (Bool.and_eq_true_iff.mp hfits).1⟩

/-! ### Pins -/

theorem hinted_pinGuest {g : Guest N} (hg : g ∈ i.guests) (w : Work N) : AllHinted i w (pinGuest i w g) := by
  unfold pinGuest
  dsimp only
  by_cases hpin : ((g.hints.pin.getD []).isEmpty || (g.hints.pin.getD []).contains (w.state.on g)) = true
  · rw [if_pos hpin]
  · rw [if_neg hpin]
    have hpinned : g.hints.pin.getD [] ≠ [] := by
      intro h
      rw [h] at hpin
      exact hpin rfl
    cases htarget : given (leastLoaded i w.state g (w.allowed i g)) with
    | none => exact hinted_note w _
    | some target =>
      obtain ⟨hallowed, hfits⟩ := leastLoaded_fits htarget
      exact hinted_record hg hallowed hfits (.pinned hpinned) .pin

theorem hinted_pins (i : PlanInput N) (w : Work N) : AllHinted i w (pins i w) :=
  hinted_foldl (fun w => w) (fun w _ hg => hinted_pinGuest (mem_sortedGuests.mp hg) w) w

/-! ### Anti-affinity -/

theorem hinted_spreadGuest {g : Guest N} (hg : g ∈ i.guests)
    (hanti : (given g.hints.antiAffinity).isSome = true)
    (acc : Work N × List String) : AllHinted i acc.1 (spreadGuest i acc g).1 := by
  obtain ⟨w, seen⟩ := acc
  unfold spreadGuest
  dsimp only
  by_cases hseen : seen.contains (w.state.on g) = true
  · rw [if_pos hseen]
    cases htarget : given (leastLoaded i w.state g ((w.allowed i g).filter fun t => !seen.contains t)) with
    | none => exact .refl
    | some target =>
      obtain ⟨hmem, hfits⟩ := leastLoaded_fits htarget
      have hrecord := hinted_record hg (List.mem_filter.mp hmem).1 hfits (.spread hanti) .antiAffinity
      dsimp only
      split
      · rename_i w' hw'
        rwa [hw'] at hrecord
      · rename_i w' hw'
        rwa [hw'] at hrecord
  · rw [if_neg hseen]

theorem hinted_spreadGroup {members : List (Guest N)} (hmembers : ∀ g ∈ members, g ∈ i.guests)
    (hanti : ∀ g ∈ members, (given g.hints.antiAffinity).isSome = true) (w : Work N) :
    AllHinted i w (spreadGroup i w members) := by
  unfold spreadGroup
  dsimp only
  have hfold : ∀ w : Work N, AllHinted i w (members.foldl (spreadGuest i) (w, [])).1 := fun w =>
    hinted_foldl Prod.fst (fun acc g hg => hinted_spreadGuest (hmembers g hg) (hanti g hg) acc) (w, [])
  split_ifs
  · exact (hinted_note w _).trans (hfold _)
  · exact hfold w

theorem hinted_antiAffinity (i : PlanInput N) (w : Work N) : AllHinted i w (antiAffinity i w) := by
  unfold antiAffinity
  refine hinted_foldl (fun w => w) (fun w e he => ?_) w
  have hmem : ∀ g ∈ e.2, g ∈ (sortedGuests i).filter fun g => (given g.hints.antiAffinity).isSome :=
    fun g hg => mem_of_mem_groupBy he hg
  refine hinted_spreadGroup (fun g hg => ?_) (fun g hg => ?_) w
  · exact mem_sortedGuests.mp (List.mem_filter.mp (hmem g hg)).1
  · exact (List.mem_filter.mp (hmem g hg)).2

/-! ### Affinity -/

omit [JsRuntime N] in
theorem exists_of_mem_countOn {s : State N} {members : List (Guest N)} {e : String × ℕ}
    (he : e ∈ countOn s members) : ∃ g ∈ members, s.on g = e.1 := by
  have hall : ∀ e ∈ countOn s members, ∃ g ∈ members, s.on g = e.1 := by
    unfold countOn
    refine List.foldlRecOn (motive := fun count : OrdMap String ℕ => ∀ e ∈ count, ∃ g ∈ members,
      s.on g = e.1) members _
      (fun e he => (nomatch he)) fun count hcount g hg e he => ?_
    rcases OrdMap.mem_set he with rfl | he
    · exact ⟨g, hg, rfl⟩
    · exact hcount e he
  exact hall e he

theorem exists_of_home {s : State N} {members : List (Guest N)} {h : String}
    (hhome : given (home i (countOn s members)) = some h) : ∃ g ∈ members, s.on g = h := by
  obtain ⟨hhome, -⟩ := filter_eq_some_iff.mp hhome
  unfold home at hhome
  obtain ⟨e, he, rfl⟩ := map_eq_some_iff.mp hhome
  have hmem := (List.mem_insertionSort _).mp (List.mem_of_mem_head? he)
  exact exists_of_mem_countOn (List.mem_filter.mp hmem).1

theorem hinted_gatherGuest {g o : Guest N} (hg : g ∈ i.guests)
    (haffinity : (given g.hints.affinity).isSome = true)
    (ho : o ∈ i.guests) (hoaffinity : (given o.hints.affinity).isSome = true)
    (hname : groupName o = groupName g)
    {home : String} {w : Work N} (hon : w.state.on o = home) :
    AllHinted i w (gatherGuest i home w g) ∧ (gatherGuest i home w g).state.on o = home := by
  unfold gatherGuest
  by_cases hthere : w.state.on g = home
  · rw [if_pos hthere]
    exact ⟨.refl, hon⟩
  · rw [if_neg hthere]
    split_ifs with hmay
    · simp only [Bool.and_eq_true, List.contains_eq_mem, decide_eq_true_eq, Bool.not_eq_true'] at hmay
      refine ⟨hinted_record hg hmay.1.1 hmay.1.2 (.gathered haffinity ho hoaffinity hname hon) .affinity, ?_⟩
      unfold Work.record
      split_ifs
      · exact hon
      · show (w.state.move i.toFleet g home).on o = home
        rw [State.on_move, hon, ite_self]
    · exact ⟨hinted_note w _, hon⟩

theorem hinted_gatherGroup {name : String} {members : List (Guest N)} (hmembers : ∀ g ∈ members, g ∈ i.guests)
    (haffinity : ∀ g ∈ members, (given g.hints.affinity).isSome = true)
    (hname : ∀ g ∈ members, groupName g = name)
    (w : Work N) : AllHinted i w (gatherGroup i w members) := by
  unfold gatherGroup
  dsimp only
  split_ifs
  · exact .refl
  · cases hhome : given (home i (countOn w.state members)) with
    | none => exact .refl
    | some h =>
      obtain ⟨o, ho, hon⟩ := exists_of_home hhome
      have hfold : AllHinted i w (members.foldl (gatherGuest i h) w) ∧
          (members.foldl (gatherGuest i h) w).state.on o = h := by
        refine List.foldlRecOn (motive := fun w' => AllHinted i w w' ∧ w'.state.on o = h)
          members _ ⟨.refl, hon⟩ ?_
        intro w' hw' g hg
        have hsame : groupName o = groupName g := (hname o ho).trans (hname g hg).symm
        obtain ⟨hstep, hstays⟩ :=
          hinted_gatherGuest (hmembers g hg) (haffinity g hg) (hmembers o ho) (haffinity o ho) hsame hw'.2
        exact ⟨hw'.1.trans hstep, hstays⟩
      exact hfold.1

theorem hinted_affinity (i : PlanInput N) (w : Work N) : AllHinted i w (affinity i w) := by
  unfold affinity
  refine hinted_foldl (fun w => w) (fun w e he => ?_) w
  have hmem : ∀ g ∈ e.2, g ∈ (sortedGuests i).filter fun g => (given g.hints.affinity).isSome :=
    fun g hg => mem_of_mem_groupBy he hg
  refine hinted_gatherGroup (fun g hg => ?_) (fun g hg => ?_) (fun g hg => eq_of_mem_groupBy he hg) w
  · exact mem_sortedGuests.mp (List.mem_filter.mp (hmem g hg)).1
  · exact (List.mem_filter.mp (hmem g hg)).2

theorem hinted_hints (i : PlanInput N) : AllHinted i (.start i) (hints i) :=
  ((hinted_pins i _).trans (hinted_antiAffinity i _)).trans (hinted_affinity i _)

end IncusCloud.Balancing
