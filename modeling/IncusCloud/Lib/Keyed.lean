import Mathlib.Algebra.GroupWithZero.Nat
import Mathlib.Algebra.Order.BigOperators.Group.List
import Mathlib.Algebra.Order.Group.Nat
import Mathlib.Data.List.Nodup

/-!
# Tables with a key

Rows put into a table by `INSERT ... ON CONFLICT (key) DO UPDATE`: a row whose key is taken replaces
the one that has it.
-/

open List

namespace IncusCloud.Lib

variable {α κ : Type*} [DecidableEq κ]

/-- The row with `r`'s key becomes `r`, or `r` is added. -/
def upsert (key : α → κ) (t : List α) (r : α) : List α :=
  if t.any fun x => key x = key r then t.map fun x => if key x = key r then r else x else t ++ [r]

variable {key : α → κ} {t rs : List α} {r x : α}

theorem mem_upsert : x ∈ upsert key t r ↔ x = r ∨ x ∈ t ∧ key x ≠ key r := by
  unfold upsert
  split_ifs with hany
  · obtain ⟨y, hy, hkey⟩ := any_eq_true.mp hany
    have hkey := of_decide_eq_true hkey
    rw [List.mem_map]
    constructor
    · rintro ⟨z, hz, hzx⟩
      split_ifs at hzx with hzr
      · exact .inl hzx.symm
      · exact .inr ⟨hzx ▸ hz, hzx ▸ hzr⟩
    · rintro (rfl | ⟨hx, hne⟩)
      · exact ⟨y, hy, if_pos hkey⟩
      · exact ⟨x, hx, if_neg hne⟩
  · have hnone : ∀ y ∈ t, key y ≠ key r := by
      intro y hy hkey
      exact hany (any_eq_true.mpr ⟨y, hy, decide_eq_true hkey⟩)
    rw [mem_append, mem_singleton]
    constructor
    · rintro (hx | rfl)
      · exact .inr ⟨hx, hnone x hx⟩
      · exact .inl rfl
    · rintro (rfl | ⟨hx, -⟩)
      · exact .inr rfl
      · exact .inl hx

theorem nodup_upsert (h : (t.map key).Nodup) : ((upsert key t r).map key).Nodup := by
  unfold upsert
  split_ifs with hany
  · -- The keys stay as they are.
    have hkeys : (t.map fun x => if key x = key r then r else x).map key = t.map key := by
      rw [map_map]
      refine map_congr_left fun x _ => ?_
      show key (if key x = key r then r else x) = key x
      split_ifs with hx
      · exact hx.symm
      · rfl
    rwa [hkeys]
  · rw [map_append, nodup_append]
    refine ⟨h, nodup_singleton _, ?_⟩
    intro k hk k' hk' heq
    obtain ⟨y, hy, rfl⟩ := List.mem_map.mp hk
    rw [map_singleton, mem_singleton] at hk'
    exact hany (any_eq_true.mpr ⟨y, hy, decide_eq_true (heq.trans hk')⟩)

theorem nodup_upsertAll (h : (t.map key).Nodup) : ((rs.foldl (upsert key) t).map key).Nodup := by
  induction rs generalizing t with
  | nil => exact h
  | cons r rs ih => exact ih (nodup_upsert h)

theorem mem_upsertAll (hrs : (rs.map key).Nodup) :
    x ∈ rs.foldl (upsert key) t ↔ x ∈ rs ∨ x ∈ t ∧ key x ∉ rs.map key := by
  induction rs generalizing t with
  | nil => simp
  | cons r rs ih =>
    rw [map_cons, nodup_cons] at hrs
    rw [foldl_cons, ih hrs.2, mem_upsert, map_cons, mem_cons, mem_cons]
    constructor
    · rintro (hx | ⟨rfl | ⟨hx, hne⟩, hkeys⟩)
      · exact .inl (.inr hx)
      · exact .inl (.inl rfl)
      · exact .inr ⟨hx, fun h => h.elim hne hkeys⟩
    · rintro ((rfl | hx) | ⟨hx, hne⟩)
      · exact .inr ⟨.inl rfl, hrs.1⟩
      · exact .inl hx
      · exact .inr ⟨.inr ⟨hx, fun h => hne (.inl h)⟩, fun h => hne (.inr h)⟩

omit [DecidableEq κ] in
theorem eq_of_key (h : (t.map key).Nodup) {y : α} (hx : x ∈ t) (hy : y ∈ t) (hkey : key x = key y) :
    x = y :=
  inj_on_of_nodup_map h hx hy hkey

/-!
### Sums over lists whose entries have keys

What is spread over entries, and what of it each key gets.
-/

variable {α β κ : Type*} [DecidableEq κ] {l : List α} {f g : α → ℕ}

theorem sum_map_comm (l : List α) (m : List β) (f : α → β → ℕ) :
    (l.map fun a => (m.map fun b => f a b).sum).sum = (m.map fun b => (l.map fun a => f a b).sum).sum := by
  induction l with
  | nil => simp
  | cons a l ih =>
    rw [map_cons, sum_cons, ih, ← sum_map_add]
    simp only [map_cons, sum_cons]

theorem sum_map_at_le {key : α → κ} (h : (l.map key).Nodup) (x : κ) (n : ℕ) :
    (l.map fun a => if key a = x then n else 0).sum ≤ n := by
  induction l with
  | nil => exact Nat.zero_le n
  | cons a l ih =>
    rw [map_cons, nodup_cons] at h
    rw [map_cons, sum_cons]
    by_cases ha : key a = x
    · have hrest : (l.map fun a => if key a = x then n else 0).sum = 0 := by
        refine sum_eq_zero fun m hm => ?_
        obtain ⟨b, hb, rfl⟩ := List.mem_map.mp hm
        rw [if_neg]
        intro hbx
        exact h.1 (ha ▸ hbx ▸ mem_map_of_mem hb)
      rw [if_pos ha, hrest]
      omega
    · rw [if_neg ha, Nat.zero_add]
      exact ih h.2

theorem sum_map_le_add {key : α → κ} (h : (l.map key).Nodup) {x : κ} {n : ℕ}
    (hother : ∀ a ∈ l, key a ≠ x → g a ≤ f a) (hthis : ∀ a ∈ l, key a = x → g a ≤ f a + n) :
    (l.map g).sum ≤ (l.map f).sum + n := by
  have hle : ∀ a ∈ l, g a ≤ f a + if key a = x then n else 0 := by
    intro a ha
    split_ifs with hx
    · exact hthis a ha hx
    · exact hother a ha hx
  have hsum := sum_le_sum hle
  rw [sum_map_add] at hsum
  have hone := sum_map_at_le h x n
  omega

end IncusCloud.Lib
