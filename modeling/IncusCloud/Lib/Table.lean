import IncusCloud.Lib.OrdMap

/-!
# Loops over a map

A loop that ranges over a map and sets each key it comes to, as a loop over a function on the keys:
the map is a `table`, and what the loop comes to does not depend on the order of the keys.
-/

namespace IncusCloud.Lib

open Function (update update_self update_of_ne)

variable {K V : Type} [DecidableEq K] {ks : List K} {F : K → V} {k : K}

def table (ks : List K) (F : K → V) : OrdMap K V := ks.map fun k => (k, F k)

theorem get_table (hk : k ∈ ks) : (table ks F).get k = some (F k) := by
  induction ks with
  | nil => cases hk
  | cons k' ks ih =>
    unfold table
    rw [List.map_cons, OrdMap.get_cons]
    split_ifs with h
    · rw [← h]
    · exact ih ((List.mem_cons.mp hk).resolve_left fun h' => h h'.symm)

theorem set_table (hk : k ∈ ks) (v : V) : (table ks F).set k v = table ks (update F k v) := by
  have hany : (table ks F).any (fun e => e.1 = k) = true :=
    List.any_eq_true.mpr ⟨(k, F k), List.mem_map_of_mem hk, decide_eq_true rfl⟩
  unfold OrdMap.set
  rw [if_pos hany]
  unfold table
  rw [List.map_map]
  refine List.map_congr_left fun k' _ => ?_
  show (if k' = k then (k, v) else (k', F k')) = (k', update F k v k')
  split_ifs with h
  · rw [h, update_self]
  · rw [update_of_ne h]

omit [DecidableEq K] in
theorem table_congr {G : K → V} (h : ∀ k ∈ ks, F k = G k) : table ks F = table ks G := by
  refine List.map_congr_left fun k hk => ?_
  rw [h k hk]

theorem update_rest {k₀ : K} {rest : List K} (g : K → V → V) (F : K → V) (hk₀ : k₀ ∉ rest) :
    (fun k => if k ∈ rest then g k (update F k₀ (g k₀ (F k₀)) k)
      else update F k₀ (g k₀ (F k₀)) k) = fun k => if k ∈ k₀ :: rest then g k (F k) else F k := by
  funext k
  by_cases hk : k = k₀
  · rw [hk, if_neg hk₀, update_self, if_pos List.mem_cons_self]
  · rw [update_of_ne hk]
    by_cases hin : k ∈ rest
    · rw [if_pos hin, if_pos (List.mem_cons_of_mem _ hin)]
    · rw [if_neg hin, if_neg fun h => hin ((List.mem_cons.mp h).resolve_left hk)]

end IncusCloud.Lib
