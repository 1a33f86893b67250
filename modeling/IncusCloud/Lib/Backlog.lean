import IncusCloud.Lib.Slots
import Mathlib.Data.Nat.Find
import Mathlib.Order.Lattice

/-!
# A log whose items are done later

Items are appended to a log as they happen and are done at any time after, in any order. While
those that touch one key are done in the order they happened in, the log has a *cut* for the key:
the items that touch it are done before the cut and still to do from it on. What a key holds is
then what it should hold at its cut.
-/

namespace IncusCloud.Lib

variable {E : Type*}

/-- The items that touch the key are to do from `v` on, and done before it. -/
structure Cut (touches todo : E → Prop) (log : List E) (v : ℕ) : Prop where
  le : v ≤ log.length
  iff : ∀ j e, log[j]? = some e → touches e → (todo e ↔ v ≤ j)

namespace Cut

variable {touches todo : E → Prop} {log : List E} {v i : ℕ} {e e' : E}

theorem nil : Cut touches todo ([] : List E) 0 := ⟨le_rfl, nofun⟩

theorem append (h : Cut touches todo log v) (he : todo e) : Cut touches todo (log ++ [e]) v := by
  constructor
  · rw [List.length_append]
    exact le_trans h.le (Nat.le_add_right _ _)
  · intro j x hx hkey
    rcases getElem?_append_cases hx with ⟨rfl, rfl⟩ | hx
    · exact ⟨fun _ => h.le, fun _ => he⟩
    · exact h.iff j x hx hkey

theorem set_of_not_touches (h : Cut touches todo log v) (he' : ¬ touches e') :
    Cut touches todo (log.set i e') v := by
  constructor
  · rw [List.length_set]
    exact h.le
  · intro j x hx hkey
    rcases getElem?_set_cases hx with ⟨-, rfl⟩ | ⟨-, hx⟩
    · exact absurd hkey he'
    · exact h.iff j x hx hkey

theorem set_of_iff (h : Cut touches todo log v) (hi : log[i]? = some e)
    (htouches : touches e' → touches e) (htodo : todo e' ↔ todo e) :
    Cut touches todo (log.set i e') v := by
  constructor
  · rw [List.length_set]
    exact h.le
  · intro j x hx hkey
    rcases getElem?_set_cases hx with ⟨rfl, rfl⟩ | ⟨-, hx⟩
    · exact htodo.trans (h.iff j e hi (htouches hkey))
    · exact h.iff j x hx hkey

theorem untouched (h : Cut touches todo log v)
    (hfirst : ∀ j x, j < i → log[j]? = some x → touches x → ¬ todo x) {j : ℕ} {x : E} (hv : v ≤ j)
    (hj : j < i) (hx : log[j]? = some x) : ¬ touches x :=
  fun hkey => hfirst j x hj hx hkey ((h.iff j x hx hkey).mpr hv)

theorem advance (h : Cut touches todo log v) (hi : log[i]? = some e) (hkey : touches e)
    (htodo : todo e) (hfirst : ∀ j x, j < i → log[j]? = some x → touches x → ¬ todo x)
    (hdone : ¬ todo e') : Cut touches todo (log.set i e') (i + 1) := by
  have hv : v ≤ i := (h.iff i e hi hkey).mp htodo
  have hlt : i < log.length := (List.getElem?_eq_some_iff.mp hi).1
  constructor
  · rw [List.length_set]
    exact hlt
  · intro j x hx hx'
    rcases getElem?_set_cases hx with ⟨rfl, rfl⟩ | ⟨hji, hx⟩
    · exact ⟨fun ht => absurd ht hdone, fun hle => by omega⟩
    · constructor
      · intro ht
        by_contra hle
        exact hfirst j x (by omega) hx hx' ht
      · intro hle
        exact (h.iff j x hx hx').mpr (by omega)

theorem shift (h : Cut touches todo log v) {w : ℕ} (hvw : v ≤ w) (hw : w ≤ log.length)
    (hnone : ∀ j x, v ≤ j → j < w → log[j]? = some x → ¬ touches x) : Cut touches todo log w := by
  refine ⟨hw, fun j x hx hkey => ?_⟩
  rw [h.iff j x hx hkey]
  constructor
  · intro hv
    by_contra hlt
    exact hnone j x hv (by omega) hx hkey
  · exact le_trans hvw

theorem between {w : ℕ} (hv : Cut touches todo log v) (hw : Cut touches todo log w) :
    ∀ j x, v ≤ j → j < w → log[j]? = some x → ¬ touches x := by
  intro j x hvj hjw hx hkey
  have htodo := (hv.iff j x hx hkey).mpr hvj
  have hle := (hw.iff j x hx hkey).mp htodo
  omega

end Cut

theorem keeps_between {P : ℕ → Prop} {touches : E → Prop} {log : List E}
    (hkeeps : ∀ j e, log[j]? = some e → ¬ touches e → P j → P (j + 1)) {v w : ℕ} (hvw : v ≤ w)
    (hw : w ≤ log.length) (hnone : ∀ j e, v ≤ j → j < w → log[j]? = some e → ¬ touches e)
    (hv : P v) : P w := by
  induction w, hvw using Nat.le_induction with
  | base => exact hv
  | succ w hvw ih =>
    have hlt : w < log.length := hw
    have hget : log[w]? = some log[w] := List.getElem?_eq_getElem hlt
    have hP := ih (Nat.le_of_lt hlt) fun j e hvj hjw => hnone j e hvj (Nat.lt_succ_of_lt hjw)
    exact hkeeps w _ hget (hnone w _ hvw (Nat.lt_succ_self w) hget) hP

theorem first_between (P : ℕ → Prop) (v w : ℕ) :
    (∀ j, v ≤ j → j < w → ¬ P j) ∨
      ∃ c, v ≤ c ∧ c < w ∧ P c ∧ ∀ j, v ≤ j → j < c → ¬ P j := by
  classical
  by_cases h : ∃ j, v ≤ j ∧ j < w ∧ P j
  · obtain ⟨hv, hw, hP⟩ := Nat.find_spec h
    refine .inr ⟨Nat.find h, hv, hw, hP, fun j hvj hj hPj => ?_⟩
    exact Nat.find_min h hj ⟨hvj, lt_trans hj hw, hPj⟩
  · exact .inl fun j hv hw hP => h ⟨j, hv, hw, hP⟩

end IncusCloud.Lib
