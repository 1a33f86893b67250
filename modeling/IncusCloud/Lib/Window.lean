import Mathlib.Data.List.Basic
import Mathlib.Order.Lattice

/-!
# Sliding windows

The times of a history that lie after a bound. A later bound needs only what was after an earlier
one, and whether there are `n` times after a bound is told by the `n`-th latest.
-/

namespace IncusCloud.Lib

open List

variable {T : Type*}

/-- The `n`-th latest time of a history in order. -/
def latest (n : ℕ) (ts : List T) : Option T := ts[ts.length - n]?

theorem latest_isSome {n : ℕ} {ts : List T} (hn : 1 ≤ n) (hlen : n ≤ ts.length) : ∃ t, latest n ts = some t := by
  exact ⟨_, List.getElem?_eq_getElem (by omega)⟩

variable [LinearOrder T]

def after (x : T) (ts : List T) : List T := ts.filter fun t => x < t

variable {x y : T} {ts us : List T}

@[simp] theorem mem_after {t : T} : t ∈ after x ts ↔ t ∈ ts ∧ x < t := by
  unfold after
  rw [mem_filter, decide_eq_true_eq]

@[simp] theorem after_nil : after x ([] : List T) = [] := rfl

@[simp] theorem after_append : after x (ts ++ us) = after x ts ++ after x us := filter_append ..

theorem after_after (h : x ≤ y) : after y (after x ts) = after y ts := by
  unfold after
  rw [filter_filter]
  apply filter_congr
  intro t _
  by_cases ht : y < t
  · simp [ht, lt_of_le_of_lt h ht]
  · simp [ht]

theorem length_after_anti (h : x ≤ y) : (after y ts).length ≤ (after x ts).length := by
  rw [← after_after h]
  exact (filter_sublist).length_le

theorem le_length_after_iff {n : ℕ} (hn : 1 ≤ n) (hlen : n ≤ ts.length) (hsorted : ts.Pairwise (· ≤ ·)) {t : T}
    (ht : latest n ts = some t) : n ≤ (after x ts).length ↔ x < t := by
  obtain ⟨hlt, hget⟩ := List.getElem?_eq_some_iff.mp ht
  have hdrop : ts.drop (ts.length - n) = t :: ts.drop (ts.length - n + 1) := by
    rw [drop_eq_getElem_cons hlt, hget]
  have hsplit := take_append_drop (ts.length - n) ts
  rw [hdrop] at hsplit
  rw [← hsplit, pairwise_append] at hsorted
  obtain ⟨-, hlast, hbefore⟩ := hsorted
  have hrest : (ts.drop (ts.length - n + 1)).length = n - 1 := by
    rw [length_drop]
    omega
  constructor
  · -- What is not after the bound are the times up to the `n`-th latest.
    intro hcount
    by_contra hnot
    have htake : after x (ts.take (ts.length - n)) = [] := by
      unfold after
      rw [filter_eq_nil_iff]
      intro u hu
      have hle := hbefore u hu t mem_cons_self
      simpa using le_trans hle (not_lt.mp hnot)
    have hcons : after x (t :: ts.drop (ts.length - n + 1)) = after x (ts.drop (ts.length - n + 1)) :=
      filter_cons_of_neg (by simpa using hnot)
    rw [← hsplit, after_append, htake, hcons, nil_append] at hcount
    have hle : (after x (ts.drop (ts.length - n + 1))).length ≤ n - 1 :=
      hrest ▸ filter_sublist.length_le
    omega
  · intro hx
    have hall : after x (t :: ts.drop (ts.length - n + 1)) = t :: ts.drop (ts.length - n + 1) := by
      unfold after
      rw [filter_eq_self]
      intro u hu
      rcases mem_cons.mp hu with rfl | hu
      · exact decide_eq_true hx
      · exact decide_eq_true (lt_of_lt_of_le hx ((pairwise_cons.mp hlast).1 u hu))
    rw [← hsplit, after_append, hall, length_append, length_cons, hrest]
    omega

end IncusCloud.Lib
