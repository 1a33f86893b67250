import IncusCloud.Balancing.Proofs.Balance
import Mathlib.Algebra.BigOperators.Group.List.Basic
import Mathlib.Tactic.Linarith
import Mathlib.Tactic.Ring

/-!
# Loads over exact numbers

Where the runtime computes exactly its numbers are read as rationals (`Exact`), and a member's load
is a value that moving a guest changes by the guest's size. So a unit that is moved there and back
leaves all loads as they were, and the spread depends on the values only.
-/

namespace IncusCloud.Balancing

open Lib List

class Exact (N : Type) [JsRuntime N] where
  val : N → ℚ
  val_zero : val 0 = 0
  val_add (a b : N) : val (a + b) = val a + val b
  val_sub (a b : N) : val (a - b) = val a - val b
  val_mul (a b : N) : val (a * b) = val a * val b
  val_div (a b : N) : val (a / b) = val a / val b
  val_max (a b : N) : val (max a b) = max (val a) (val b)
  val_min (a b : N) : val (min a b) = min (val a) (val b)
  val_hundred : val (JsRuntime.hundred : N) = 100
  val_epsilon : val (JsRuntime.epsilon : N) = 1 / 10 ^ 9
  lt_eq (a b : N) : JsRuntime.lt a b = decide (val a < val b)
  le_eq (a b : N) : JsRuntime.le a b = decide (val a ≤ val b)

@[reducible]
def exactRuntime (localeCompare : String → String → ℤ) : @Exact ℚ (exact localeCompare) :=
  letI := exact localeCompare
  { val := fun x => x
    val_zero := rfl
    val_add := fun _ _ => rfl
    val_sub := fun _ _ => rfl
    val_mul := fun _ _ => rfl
    val_div := fun _ _ => rfl
    val_max := fun _ _ => rfl
    val_min := fun _ _ => rfl
    val_hundred := rfl
    val_epsilon := rfl
    lt_eq := fun _ _ => rfl
    le_eq := fun _ _ => rfl }

open Exact

variable {N : Type} [JsRuntime N] [Exact N]

/-! ### The load of a member -/

def State.value (s : State N) (member : String) (r : Method) : Option ℚ :=
  (s.load.get member).map fun l => val (l.get r)

variable (c : Fleet N)

def sizeVal (g : Guest N) (r : Method) : ℚ := val (State.size c g r)

def unitVal (unit : List (Guest N)) (r : Method) : ℚ := (unit.map fun g => sizeVal c g r).sum

theorem unitVal_cons (g : Guest N) (unit : List (Guest N)) (r : Method) :
    unitVal c (g :: unit) r = sizeVal c g r + unitVal c unit r := by
  unfold unitVal
  rw [map_cons, sum_cons]

theorem val_sizeOf (unit : List (Guest N)) (r : Method) :
    val (State.sizeOf c unit r) = unitVal c unit r := by
  have hfold : ∀ x : N, val (unit.foldl (fun n g => n + State.size c g r) x) = val x + unitVal c unit r := by
    induction unit with
    | nil =>
      intro x
      unfold unitVal
      simp
    | cons g unit ih =>
      intro x
      rw [foldl_cons, ih, val_add, unitVal_cons, ← add_assoc]
      rfl
  unfold State.sizeOf
  rw [hfold, val_zero, zero_add]

theorem val_loadOf (s : State N) (member : String) (r : Method) :
    val (s.loadOf member r) = (s.value member r).getD 0 := by
  unfold State.loadOf State.value
  cases s.load.get member with
  | none => exact val_zero
  | some l => rfl

omit [Exact N] in
theorem get_sub (x y : Resources N) (r : Method) : (x.sub y).get r = x.get r - y.get r := by
  cases r <;> rfl

omit [Exact N] in
theorem get_add (x y : Resources N) (r : Method) : (x.add y).get r = x.get r + y.get r := by
  cases r <;> rfl

def changed (load : OrdMap String (Resources N)) (k : String) (f : Resources N → Resources N) :
    OrdMap String (Resources N) :=
  match load.get k with
  | some l => load.set k (f l)
  | none => load

theorem value_change (load : OrdMap String (Resources N)) (k : String) (f : Resources N → Resources N) (m : String)
    (r : Method) {d : ℚ} (hf : ∀ l : Resources N, val ((f l).get r) = val (l.get r) + d) :
    ((changed load k f).get m).map (fun l : Resources N => val (l.get r)) =
      ((load.get m).map fun l : Resources N => val (l.get r)).map fun v => v + if m = k then d else 0 := by
  unfold changed
  cases hk : load.get k with
  | none =>
    by_cases hm : m = k
    · rw [hm, hk]
      rfl
    · simp only [if_neg hm, add_zero, Option.map_map]
      rfl
  | some l =>
    rw [OrdMap.get_set]
    by_cases hm : m = k
    · rw [if_pos hm, hm, hk]
      simp [hf]
    · simp only [if_neg hm, add_zero, Option.map_map]
      rfl

theorem value_move (s : State N) (g : Guest N) (target m : String) (r : Method) :
    (s.move c g target).value m r = (s.value m r).map fun v =>
      v + (if m = s.on g then -sizeVal c g r else 0) + if m = target then sizeVal c g r else 0 := by
  have hsub : ∀ l : Resources N, val ((l.sub (State.sizes c g)).get r) = val (l.get r) + -sizeVal c g r := by
    intro l
    rw [get_sub, val_sub, sub_eq_add_neg]
    rfl
  have hadd : ∀ l : Resources N, val ((l.add (State.sizes c g)).get r) = val (l.get r) + sizeVal c g r := by
    intro l
    rw [get_add, val_add]
    rfl
  have hload : (s.move c g target).load =
      changed (changed s.load (s.on g) fun l => l.sub (State.sizes c g)) target fun l => l.add (State.sizes c g) := rfl
  unfold State.value
  rw [hload, value_change _ target _ m r hadd, value_change s.load (s.on g) _ m r hsub, Option.map_map]
  rfl

variable {unit : List (Guest N)} {source : String}

theorem value_moveAll (hkeys : (unit.map key).Nodup) {s : State N} (hon : ∀ g ∈ unit, s.on g = source) (target m : String) (r : Method) :
    (moveAll c s unit target).value m r = (s.value m r).map fun v =>
      v + (if m = source then -unitVal c unit r else 0) + if m = target then unitVal c unit r else 0 := by
  unfold moveAll
  induction unit generalizing s with
  | nil =>
    unfold unitVal
    simp
  | cons g unit ih =>
    rw [map_cons, nodup_cons] at hkeys
    have hrest : ∀ o ∈ unit, (s.move c g target).on o = source := by
      intro o ho
      have hne : key o ≠ key g := fun h => hkeys.1 (h ▸ mem_map_of_mem ho)
      rw [State.on_move, if_neg hne]
      exact hon o (mem_cons_of_mem g ho)
    rw [foldl_cons, ih hkeys.2 hrest, value_move, hon g mem_cons_self, Option.map_map, unitVal_cons]
    congr 1
    funext v
    simp only [Function.comp_apply]
    split_ifs <;> ring

/-! ### States with the same loads -/

/-- Guests are at the same places, and the loads have the same values. -/
structure Alike (s s' : State N) : Prop where
  on : s'.on = s.on
  value : s'.value = s.value

namespace Alike

variable {s s' s'' : State N}

theorem refl (s : State N) : Alike s s := ⟨rfl, rfl⟩

theorem trans (h : Alike s s') (h' : Alike s' s'') : Alike s s'' :=
  ⟨h'.on.trans h.on, h'.value.trans h.value⟩

theorem back (hkeys : (unit.map key).Nodup)
    (hon : ∀ g ∈ unit, s.on g = source) (target : String) :
    Alike s (moveAll c (moveAll c s unit target) unit source) := by
  refine ⟨on_moveAll_back c hon target, ?_⟩
  funext m r
  have hthere : ∀ g ∈ unit, (moveAll c s unit target).on g = target := by
    intro g hg
    rw [on_moveAll, if_pos (mem_map_of_mem hg)]
  rw [value_moveAll c hkeys hthere, value_moveAll c hkeys hon, Option.map_map]
  cases s.value m r with
  | none => rfl
  | some v =>
    simp only [Option.map_some, Function.comp_apply, Option.some.injEq]
    split_ifs <;> ring

theorem moveAll (h : Alike s s') (c : Fleet N) (hkeys : (unit.map key).Nodup) (hon : ∀ g ∈ unit, s.on g = source) (target : String) :
    Alike (Balancing.moveAll c s unit target) (Balancing.moveAll c s' unit target) := by
  have hon' : ∀ g ∈ unit, s'.on g = source := by
    rw [h.on]
    exact hon
  constructor
  · funext o
    rw [on_moveAll, on_moveAll, h.on]
  · funext m r
    rw [value_moveAll c hkeys hon, value_moveAll c hkeys hon', h.value]

theorem fits (h : Alike s s') (c : Fleet N) (unit : List (Guest N)) (target : String) (r : Method) :
    s'.fits c unit target r = s.fits c unit target r := by
  unfold State.fits
  rw [le_eq, le_eq, val_add, val_add, val_loadOf, val_loadOf, h.value]

end Alike

theorem fits_iff {c : Fleet N} {s : State N} {target : String} {r : Method} :
    s.fits c unit target r = true ↔
      (s.value target r).getD 0 + unitVal c unit r ≤ val (State.totalOf c target r) := by
  unfold State.fits
  rw [le_eq, decide_eq_true_iff, val_add, val_loadOf, val_sizeOf]

/-! ### The spread -/

/-- The highest of some numbers minus the lowest. -/
def spreadOf : List ℚ → ℚ
  | [] => 0
  | p :: ps => ps.foldl max p - ps.foldl min p

def percentOf (total load : ℚ) : ℚ := if 0 < total then load / total * 100 else 0

def spreadVal (s : State N) (r : Method) : ℚ :=
  spreadOf (c.activeNames.map fun m => percentOf (val (State.totalOf c m r)) ((s.value m r).getD 0))

theorem val_percent (s : State N) (m : String) (r : Method) :
    val (s.percent c m r) = percentOf (val (State.totalOf c m r)) ((s.value m r).getD 0) := by
  unfold State.percent percentOf
  rw [lt_eq, val_zero]
  by_cases htotal : 0 < val (State.totalOf c m r)
  · rw [if_pos htotal, if_pos (decide_eq_true htotal), val_mul, val_div, val_hundred, val_loadOf]
  · rw [if_neg htotal, if_neg (by simpa using htotal), val_zero]

theorem val_spread (s : State N) (r : Method) : val (s.spread c r) = spreadVal c s r := by
  have hfold : ∀ (f : N → N → N) (f' : ℚ → ℚ → ℚ), (∀ a b, val (f a b) = f' (val a) (val b)) →
      ∀ (ps : List N) (p : N), val (ps.foldl f p) = (ps.map val).foldl f' (val p) := by
    intro f f' hf ps
    induction ps with
    | nil => exact fun p => rfl
    | cons x ps ih =>
      intro p
      rw [foldl_cons, ih, hf]
      rfl
  have hmap : (c.activeNames.map fun m => s.percent c m r).map val =
      c.activeNames.map fun m => percentOf (val (State.totalOf c m r)) ((s.value m r).getD 0) := by
    rw [map_map]
    exact map_congr_left fun m _ => val_percent c s m r
  unfold State.spread spreadVal
  rw [← hmap]
  cases c.activeNames.map fun m => s.percent c m r with
  | nil => exact val_zero
  | cons p ps =>
    rw [val_sub, hfold max max val_max, hfold min min val_min]
    rfl

theorem Alike.spreadVal {s s' : State N} (h : Alike s s') (c : Fleet N) (r : Method) :
    Balancing.spreadVal c s' r = Balancing.spreadVal c s r := by
  unfold Balancing.spreadVal
  rw [h.value]

end IncusCloud.Balancing
