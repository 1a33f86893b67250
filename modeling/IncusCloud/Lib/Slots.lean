import Mathlib.Algebra.GroupWithZero.Nat
import Mathlib.Data.List.Basic

/-!
# Lists whose places are written one at a time

What stands at a place after one was set, modified or added.
-/

namespace IncusCloud.Lib

open List Option

variable {α : Type*} {l : List α} {i k : ℕ} {x y : α}

theorem getElem?_set_cases (h : (l.set i x)[k]? = some y) :
    (k = i ∧ y = x) ∨ (k ≠ i ∧ l[k]? = some y) := by
  rw [List.getElem?_set] at h
  split_ifs at h with hik hlt
  · exact .inl ⟨hik.symm, (some.inj h).symm⟩
  · exact .inr ⟨fun hk => hik hk.symm, h⟩

theorem getElem?_modify_cases {f : α → α} (h : (l.modify i f)[k]? = some y) :
    (k = i ∧ ∃ x, l[k]? = some x ∧ y = f x) ∨ (k ≠ i ∧ l[k]? = some y) := by
  rw [List.getElem?_modify] at h
  split_ifs at h with hik
  · obtain ⟨x, hx, rfl⟩ := map_eq_some_iff.mp h
    exact .inl ⟨hik.symm, x, hx, rfl⟩
  · rw [id_map'] at h
    exact .inr ⟨fun hk => hik hk.symm, h⟩

theorem map_modify_eq {β : Type*} {f : α → α} {g : α → β} (h : ∀ x, g (f x) = g x) :
    (l.modify i f).map g = l.map g := by
  refine ext_getElem? fun k => ?_
  rw [List.getElem?_map, List.getElem?_map, List.getElem?_modify]
  split_ifs
  · rw [Option.map_eq_map, Option.map_map]
    exact congrFun (congrArg Option.map (funext h)) _
  · rw [id_map']

theorem sum_map_modify {f : α → α} (g : α → ℕ) (h : l[i]? = some x) :
    ((l.modify i f).map g).sum + g x = (l.map g).sum + g (f x) := by
  induction l generalizing i with
  | nil => cases h
  | cons z l ih =>
    cases i with
    | zero =>
      obtain rfl := some.inj h
      rw [modify_zero_cons, map_cons, map_cons, sum_cons, sum_cons]
      omega
    | succ i =>
      have hrest := ih (i := i) h
      rw [modify_succ_cons, map_cons, map_cons, sum_cons, sum_cons]
      omega

theorem getElem?_append_cases (h : (l ++ [x])[k]? = some y) :
    (k = l.length ∧ y = x) ∨ l[k]? = some y := by
  by_cases hk : k < l.length
  · rw [List.getElem?_append_left hk] at h
    exact .inr h
  · have hle : l.length ≤ k := Nat.le_of_not_lt hk
    have hlt := (List.getElem?_eq_some_iff.mp h).1
    rw [length_append, length_singleton] at hlt
    rw [List.getElem?_append_right hle] at h
    have hmem : y ∈ [x] := mem_of_getElem? h
    exact .inl ⟨by omega, mem_singleton.mp hmem⟩

theorem mem_set_of_mem (hx : x ∈ l) (hi : l[i]? = some y) (z : α) : x = y ∨ x ∈ l.set i z := by
  obtain ⟨k, hk⟩ := mem_iff_getElem?.mp hx
  by_cases hik : i = k
  · subst hik
    exact .inl (some.inj (hk.symm.trans hi))
  · right
    apply mem_of_getElem? (i := k)
    rw [List.getElem?_set_ne hik]
    exact hk

theorem forall_mem_set {P : α → Prop} (hl : ∀ x ∈ l, P x) (hy : P y) : ∀ x ∈ l.set i y, P x := by
  intro x hx
  rcases mem_or_eq_of_mem_set hx with hx | rfl
  · exact hl x hx
  · exact hy

end IncusCloud.Lib
