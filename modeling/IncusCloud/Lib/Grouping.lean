import IncusCloud.Lib.OrdMap
import Mathlib.Data.List.MinMax
import Mathlib.Data.List.Sort

/-!
# Grouping and ranking

A list grouped by a key into an insertion-ordered map, what a list made group by group has of one
key, and sorting by an order that is finer than the one that matters.
-/

open List

namespace IncusCloud.Lib

variable {K V W : Type*}

namespace OrdMap

variable [DecidableEq K]

/-- `push` for every element, each under its own key. -/
def group (f : V → K) (l : List V) : OrdMap K (List V) := l.foldl (fun m x => m.push (f x) x) []

theorem get_foldl_push (f : V → K) (l : List V) (m : OrdMap K (List V)) (k : K) :
    get (l.foldl (fun m x => m.push (f x) x) m) k =
      if l.filter (fun x => f x = k) = [] then m.get k
      else some ((m.get k).getD [] ++ l.filter fun x => f x = k) := by
  induction l generalizing m with
  | nil => rfl
  | cons x l ih =>
    rw [foldl_cons, ih]
    unfold push
    rw [get_set]
    by_cases hx : f x = k
    · subst hx
      simp
    · have hk : ¬ k = f x := fun h => hx h.symm
      simp [hx, hk]

theorem get_group (f : V → K) (l : List V) (k : K) :
    (group f l).get k = if l.filter (fun x => f x = k) = [] then none else some (l.filter fun x => f x = k) := by
  unfold group
  rw [get_foldl_push]
  simp

theorem nodup_keys_group (f : V → K) (l : List V) : ((group f l).map (·.1)).Nodup := by
  suffices h : ∀ m : OrdMap K (List V), (m.map (·.1)).Nodup →
      ((l.foldl (fun m x => m.push (f x) x) m).map (·.1)).Nodup from h [] nodup_nil
  induction l with
  | nil => exact fun m hm => hm
  | cons x l ih => exact fun m hm => ih _ (nodup_keys_set hm _ _)

theorem get_perm {m m' : OrdMap K V} (h : m.Perm m') (hm : (m.map (·.1)).Nodup) (k : K) : m.get k = m'.get k := by
  have hm' : (m'.map (·.1)).Nodup := (h.map _).nodup_iff.mp hm
  ext v
  constructor
  · intro hv
    exact get_of_mem hm' (h.mem_iff.mp (mem_of_get hv))
  · intro hv
    exact get_of_mem hm (h.mem_iff.mpr (mem_of_get hv))

theorem filter_flatMap {m : OrdMap K V} (hm : (m.map (·.1)).Nodup) {f : K × V → List W}
    {key : W → K} (hf : ∀ e, ∀ w ∈ f e, key w = e.1) (k : K) :
    ((List.flatMap f m).filter fun w => key w = k) = (m.get k).elim [] fun v => f (k, v) := by
  induction m with
  | nil => rfl
  | cons e m ih =>
    rw [map_cons, nodup_cons] at hm
    rw [flatMap_cons, filter_append, ih hm.2, get_cons]
    by_cases hk : e.1 = k
    · have hall : (f e).filter (fun w => key w = k) = f e := by
        rw [filter_eq_self]
        intro w hw
        simp [hf e w hw, hk]
      have hnone : get m k = none := by
        rw [← Option.not_isSome_iff_eq_none, isSome_get, ← hk]
        exact hm.1
      rw [hall, hnone, if_pos hk, ← hk]
      simp
    · have hnone : (f e).filter (fun w => key w = k) = [] := by
        rw [filter_eq_nil_iff]
        intro w hw
        simp [hf e w hw, hk]
      rw [hnone, if_neg hk, nil_append]

end OrdMap

section

variable {r : V → V → Prop} [DecidableRel r] {s : V → V → Prop}

theorem pairwise_orderedInsert (htrans : ∀ a b c, s a b → s b c → s a c) (hr : ∀ a b, r a b → s a b)
    (hnot : ∀ a b, ¬ r a b → s b a) {l : List V} (hl : l.Pairwise s) (a : V) : (l.orderedInsert r a).Pairwise s := by
  induction l with
  | nil => simp
  | cons b l ih =>
    rw [pairwise_cons] at hl
    rw [orderedInsert_cons]
    split_ifs with hab
    · refine pairwise_cons.mpr ⟨?_, pairwise_cons.mpr hl⟩
      intro c hc
      rcases mem_cons.mp hc with rfl | hc
      · exact hr a _ hab
      · exact htrans a b c (hr a b hab) (hl.1 c hc)
    · refine pairwise_cons.mpr ⟨?_, ih hl.2⟩
      intro c hc
      rcases mem_cons.mp ((perm_orderedInsert r a l).mem_iff.mp hc) with rfl | hc
      · exact hnot _ b hab
      · exact hl.1 c hc

theorem pairwise_insertionSort (htrans : ∀ a b c, s a b → s b c → s a c) (hr : ∀ a b, r a b → s a b)
    (hnot : ∀ a b, ¬ r a b → s b a) (l : List V) : (l.insertionSort r).Pairwise s := by
  induction l with
  | nil => exact List.Pairwise.nil
  | cons a l ih => exact pairwise_orderedInsert htrans hr hnot ih a

end

/-!
### The last of the highest

Among the elements of a list, by a rank of each: the last of those whose rank is the highest.

* `lastHighest_concat`: what one more element at the end changes.
* `lastHighest_congr`: only the order within each rank matters.
-/

variable {α κ : Type*} [LinearOrder κ] (rank : α → κ)

def lastHighest (l : List α) : Option α := (l.filter fun a => ∀ b ∈ l, rank b ≤ rank a).getLast?

variable {rank} {l l' : List α} {a : α}

theorem exists_highest (h : l ≠ []) : ∃ a ∈ l, ∀ b ∈ l, rank b ≤ rank a := by
  have hsome : l.argmax rank ≠ none := fun hnone => h (argmax_eq_none.mp hnone)
  obtain ⟨a, ha⟩ := Option.ne_none_iff_exists'.mp hsome
  exact ⟨a, argmax_mem ha, fun b hb => le_of_mem_argmax hb ha⟩

theorem lastHighest_eq (ha : a ∈ l) (hmax : ∀ b ∈ l, rank b ≤ rank a) :
    lastHighest rank l = (l.filter fun b => rank b = rank a).getLast? := by
  unfold lastHighest
  congr 1
  apply filter_congr
  intro b hb
  rw [decide_eq_decide]
  constructor
  · intro h
    exact le_antisymm (hmax b hb) (h a ha)
  · intro h c hc
    rw [h]
    exact hmax c hc

theorem lastHighest_spec (h : lastHighest rank l = some a) : a ∈ l ∧ ∀ b ∈ l, rank b ≤ rank a := by
  have hmem := mem_of_getLast? h
  simpa using mem_filter.mp hmem

theorem lastHighest_isSome (h : l ≠ []) : ∃ a, lastHighest rank l = some a := by
  obtain ⟨a, ha, hmax⟩ := @exists_highest α κ _ rank _ h
  have hmem : a ∈ l.filter fun a => ∀ b ∈ l, rank b ≤ rank a := by
    rw [mem_filter, decide_eq_true_iff]
    exact ⟨ha, hmax⟩
  exact ⟨_, List.getLast?_eq_some_getLast (ne_nil_of_mem hmem)⟩

theorem lastHighest_concat (l : List α) (c : α) :
    lastHighest rank (l ++ [c]) = if ∀ b ∈ l, rank b ≤ rank c then some c else lastHighest rank l := by
  split_ifs with hc
  · have hmax : ∀ b ∈ l ++ [c], rank b ≤ rank c := by
      intro b hb
      rcases mem_append.mp hb with hb | hb
      · exact hc b hb
      · rw [mem_singleton.mp hb]
    rw [lastHighest_eq (by simp) hmax, filter_append]
    simp
  · have hne : l ≠ [] := by
      rintro rfl
      exact hc (forall_mem_nil _)
    obtain ⟨a, ha, hmax⟩ := @exists_highest α κ _ rank _ hne
    -- The new element is below the highest, so it changes neither the rank nor its elements.
    have hlt : rank c < rank a := by
      by_contra hle
      exact hc fun b hb => le_trans (hmax b hb) (not_lt.mp hle)
    have hmax' : ∀ b ∈ l ++ [c], rank b ≤ rank a := by
      intro b hb
      rcases mem_append.mp hb with hb | hb
      · exact hmax b hb
      · rw [mem_singleton.mp hb]
        exact le_of_lt hlt
    rw [lastHighest_eq (mem_append_left _ ha) hmax', lastHighest_eq ha hmax, filter_append]
    simp [ne_of_lt hlt]

theorem lastHighest_congr (h : ∀ r, (l.filter fun b => rank b = r) = l'.filter fun b => rank b = r) :
    lastHighest rank l = lastHighest rank l' := by
  have hmem : ∀ b, b ∈ l ↔ b ∈ l' := by
    intro b
    have hb : b ∈ (l.filter fun c => rank c = rank b) ↔ b ∈ l'.filter fun c => rank c = rank b := by rw [h]
    simpa using hb
  by_cases hl : l = []
  · subst hl
    have hl' : l' = [] := eq_nil_iff_forall_not_mem.mpr fun b hb => by simpa using (hmem b).mpr hb
    rw [hl']
  · obtain ⟨a, ha, hmax⟩ := @exists_highest α κ _ rank _ hl
    have hmax' : ∀ b ∈ l', rank b ≤ rank a := fun b hb => hmax b ((hmem b).mpr hb)
    rw [lastHighest_eq ha hmax, lastHighest_eq ((hmem a).mp ha) hmax', h]

theorem lt_foldl_max_iff {R : Type*} [LinearOrder R] (f : α → R) (xs : List α) (b x : R) :
    x < xs.foldl (fun acc a => max acc (f a)) b ↔ x < b ∨ ∃ a ∈ xs, x < f a := by
  induction xs generalizing b with
  | nil => simp
  | cons a xs ih =>
    rw [foldl_cons, ih, lt_max_iff]
    simp [or_assoc]

/-!
### First occurrences

The elements of a list whose key none before them has, in their order. An element without a key
repeats nothing.
-/

variable {α κ : Type*} [DecidableEq κ] (key : α → Option κ)

def repeats (l : List α) (a : α) : Bool := (key a).any fun k => l.any fun b => key b = some k

def firsts (l : List α) : List α := l.foldl (fun acc a => if repeats key acc a then acc else acc ++ [a]) []

variable {key} {l : List α} {a b : α}

theorem repeats_iff : repeats key l a = true ↔ ∃ k, key a = some k ∧ ∃ b ∈ l, key b = some k := by
  simp [repeats, Option.any_eq_true]

theorem firsts_concat (l : List α) (a : α) :
    firsts key (l ++ [a]) = if repeats key (firsts key l) a then firsts key l else firsts key l ++ [a] := by
  rw [firsts, foldl_append]
  rfl

theorem firsts_sublist (l : List α) : (firsts key l).Sublist l := by
  induction l using List.reverseRecOn with
  | nil => exact List.Sublist.refl []
  | append_singleton l a ih =>
    rw [firsts_concat]
    split_ifs
    · exact ih.trans (sublist_append_left l [a])
    · exact ih.append (List.Sublist.refl [a])

theorem exists_first {k : κ} (ha : a ∈ l) (hk : key a = some k) : ∃ b ∈ firsts key l, key b = some k := by
  induction l using List.reverseRecOn with
  | nil => cases ha
  | append_singleton l c ih =>
    rw [firsts_concat]
    rcases mem_append.mp ha with ha | ha
    · obtain ⟨b, hb, hkb⟩ := ih ha
      split_ifs
      · exact ⟨b, hb, hkb⟩
      · exact ⟨b, mem_append_left _ hb, hkb⟩
    · obtain rfl := mem_singleton.mp ha
      split_ifs with hrep
      · obtain ⟨k', hk', b, hb, hkb⟩ := repeats_iff.mp hrep
        rw [hk, Option.some.injEq] at hk'
        exact ⟨b, hb, hk' ▸ hkb⟩
      · exact ⟨a, by simp, hk⟩

theorem repeats_firsts (l : List α) (a : α) : repeats key (firsts key l) a = repeats key l a := by
  rw [Bool.eq_iff_iff, repeats_iff, repeats_iff]
  constructor
  · rintro ⟨k, hk, b, hb, hkb⟩
    exact ⟨k, hk, b, (firsts_sublist l).subset hb, hkb⟩
  · rintro ⟨k, hk, b, hb, hkb⟩
    exact ⟨k, hk, exists_first hb hkb⟩

theorem pairwise_firsts (l : List α) : (firsts key l).Pairwise fun a b => ∀ k, key a = some k → key b ≠ some k := by
  induction l using List.reverseRecOn with
  | nil => exact List.Pairwise.nil
  | append_singleton l c ih =>
    rw [firsts_concat]
    split_ifs with hrep
    · exact ih
    · refine pairwise_append.mpr ⟨ih, pairwise_singleton _ _, ?_⟩
      intro a ha b hb k hka hkb
      rw [mem_singleton.mp hb] at hkb
      exact hrep (repeats_iff.mpr ⟨k, hkb, a, ha, hka⟩)

theorem filter_firsts_none (l : List α) :
    (firsts key l).filter (fun a => key a = none) = l.filter fun a => key a = none := by
  induction l using List.reverseRecOn with
  | nil => rfl
  | append_singleton l c ih =>
    rw [firsts_concat, filter_append, ← ih]
    split_ifs with hrep
    · obtain ⟨k, hk, -⟩ := repeats_iff.mp hrep
      simp [hk]
    · rw [filter_append]

theorem first_le {r : α → α → Prop} (hl : l.Pairwise r) (hrefl : ∀ a, r a a) (ha : a ∈ firsts key l)
    (hb : b ∈ l) {k : κ} (hka : key a = some k) (hkb : key b = some k) : r a b := by
  induction l using List.reverseRecOn with
  | nil => cases hb
  | append_singleton l c ih =>
    obtain ⟨hpair, -, hlast⟩ := pairwise_append.mp hl
    rw [firsts_concat] at ha
    split_ifs at ha with hrep
    · rcases mem_append.mp hb with hb | hb
      · exact ih hpair ha hb
      · exact hlast a ((firsts_sublist l).subset ha) b hb
    · rcases mem_append.mp ha with ha | ha
      · rcases mem_append.mp hb with hb | hb
        · exact ih hpair ha hb
        · exact hlast a ((firsts_sublist l).subset ha) b hb
      · obtain rfl := mem_singleton.mp ha
        rcases mem_append.mp hb with hb | hb
        · rw [repeats_firsts] at hrep
          exact absurd (repeats_iff.mpr ⟨k, hka, b, hb, hkb⟩) hrep
        · rw [mem_singleton.mp hb]
          exact hrefl a

theorem firsts_eq_self {l : List α}
    (hl : l.Pairwise fun a b => ∀ k, key a = some k → key b ≠ some k) : firsts key l = l := by
  induction l using List.reverseRecOn with
  | nil => rfl
  | append_singleton l a ih =>
    obtain ⟨hpair, -, hlast⟩ := pairwise_append.mp hl
    rw [firsts_concat, ih hpair, if_neg]
    intro hrep
    obtain ⟨k, hk, b, hb, hkb⟩ := repeats_iff.mp hrep
    exact hlast b hb a mem_cons_self k hkb hk

/-! ### The first of a sorted list -/

theorem head?_mergeSort {le : α → α → Bool} (htrans : ∀ a b c, le a b = true → le b c = true → le a c = true)
    (htotal : ∀ a b, le a b = true ∨ le b a = true) (h : (l.mergeSort le).head? = some a) :
    a ∈ l ∧ ∀ b ∈ l, le a b = true := by
  have hsorted := pairwise_mergeSort htrans (fun a b => by simpa using htotal a b) l
  obtain ⟨rest, hrest⟩ := head?_eq_some_iff.mp h
  rw [hrest] at hsorted
  have hmem : ∀ b, b ∈ l ↔ b = a ∨ b ∈ rest := by
    intro b
    rw [← mem_cons, ← hrest, mem_mergeSort]
  refine ⟨(hmem a).mpr (.inl rfl), fun b hb => ?_⟩
  rcases (hmem b).mp hb with rfl | hb
  · exact (htotal b b).elim id id
  · exact (pairwise_cons.mp hsorted).1 b hb

theorem eq_nil_of_head?_mergeSort {le : α → α → Bool} (h : (l.mergeSort le).head? = none) : l = [] := by
  simpa using congrArg length (head?_eq_none_iff.mp h)

end IncusCloud.Lib
