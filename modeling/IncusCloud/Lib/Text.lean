import Mathlib.Data.List.Infix
import Mathlib.Data.List.TakeWhile
import Mathlib.Data.String.Basic

/-!
# Separated text

Splitting a text at a separator and joining it again, and the two edits of JavaScript strings
that separated texts need: replacing the first occurrence of a pattern, and cutting a text before
its last separator. Everything is stated on characters; nothing here knows what the fields are.
-/

namespace IncusCloud.Lib

open List

/-- The fields of `s` between separators, as JavaScript's `s.split(sep)`. -/
def split (sep : Char) (s : String) : List String := (s.toList.splitOn sep).map String.ofList

/-- The fields `xs` with a separator between neighbours. -/
def join (sep : Char) (xs : List String) : String :=
  String.ofList ([sep].intercalate (xs.map String.toList))

theorem join_split (sep : Char) (s : String) : join sep (split sep s) = s := by
  have hmap : ((s.toList.splitOn sep).map String.ofList).map String.toList = s.toList.splitOn sep := by
    rw [map_map]
    conv_rhs => rw [← map_id (s.toList.splitOn sep)]
    exact map_congr_left fun l _ => String.toList_ofList
  unfold join split
  rw [hmap, intercalate_splitOn, String.ofList_toList]

theorem split_join (sep : Char) {xs : List String} (hxs : xs ≠ [])
    (hsep : ∀ x ∈ xs, sep ∉ x.toList) : split sep (join sep xs) = xs := by
  unfold join split
  rw [String.toList_ofList, splitOn_intercalate sep ?_ (by simpa using hxs), map_map]
  · conv_rhs => rw [← map_id xs]
    exact map_congr_left fun x _ => String.ofList_toList
  · intro l hl
    obtain ⟨x, hx, rfl⟩ := List.mem_map.mp hl
    exact hsep x hx

theorem join_injective (sep : Char) {xs ys : List String} (hxs : xs ≠ []) (hys : ys ≠ [])
    (hx : ∀ x ∈ xs, sep ∉ x.toList) (hy : ∀ y ∈ ys, sep ∉ y.toList)
    (h : join sep xs = join sep ys) : xs = ys := by
  rw [← split_join sep hxs hx, h, split_join sep hys hy]

theorem append_sep_inj {α : Type*} {sep : α} {x y r s : List α} (hx : sep ∉ x) (hy : sep ∉ y)
    (h : x ++ sep :: r = y ++ sep :: s) : x = y ∧ r = s := by
  induction x generalizing y with
  | nil =>
    cases y with
    | nil => exact ⟨rfl, (List.cons.inj h).2⟩
    | cons b y => exact absurd (mem_cons.mpr (.inl (List.cons.inj h).1)) hy
  | cons a x ih =>
    cases y with
    | nil => exact absurd (mem_cons.mpr (.inl (List.cons.inj h).1.symm)) hx
    | cons b y =>
      obtain ⟨rfl, htail⟩ := List.cons.inj h
      obtain ⟨rfl, hrest⟩ := ih (fun hm => hx (mem_cons_of_mem _ hm))
        (fun hm => hy (mem_cons_of_mem _ hm)) htail
      exact ⟨rfl, hrest⟩

/-! ### The first separator -/

section Cut

variable {α : Type*} [DecidableEq α]

/-- What stands before the first `sep`, and after it where there is one. -/
def cut (sep : α) (l : List α) : List α × Option (List α) :=
  (l.takeWhile (· ≠ sep), if sep ∈ l then some (l.dropWhile (· ≠ sep)).tail else none)

variable {l : List α}

theorem cut_of_not_mem {sep : α} (h : sep ∉ l) : cut sep l = (l, none) := by
  have htake : l.takeWhile (· ≠ sep) = l := by
    apply takeWhile_eq_self_iff.mpr
    intro a ha
    have hne : a ≠ sep := fun heq => h (heq ▸ ha)
    simpa using hne
  rw [cut, htake, if_neg h]

theorem cut_append {sep : α} (h : sep ∉ l) (r : List α) :
    cut sep (l ++ sep :: r) = (l, some r) := by
  have hall : ∀ a ∈ l, decide (a ≠ sep) = true := by
    intro a ha
    have hne : a ≠ sep := fun heq => h (heq ▸ ha)
    simpa using hne
  rw [cut, if_pos (by simp), takeWhile_append_of_pos hall, dropWhile_append_of_pos hall]
  simp

theorem cut_cases (sep : α) (l : List α) :
    sep ∉ l ∧ cut sep l = (l, none) ∨
      ∃ x y, sep ∉ x ∧ l = x ++ sep :: y ∧ cut sep l = (x, some y) := by
  by_cases h : sep ∈ l
  · obtain ⟨x, y, rfl, hx⟩ := eq_append_cons_of_mem h
    exact .inr ⟨x, y, hx, rfl, cut_append hx y⟩
  · exact .inl ⟨h, cut_of_not_mem h⟩

theorem mem_splitOn {sep : α} {l x : List α} (h : x ∈ l.splitOn sep) : sep ∉ x ∧ x ⊆ l := by
  induction hn : l.length using Nat.strong_induction_on generalizing l with
  | _ n ih =>
  rcases cut_cases sep l with ⟨hl, -⟩ | ⟨y, z, hy, rfl, -⟩
  · rw [splitOn_eq_singleton hl, mem_singleton] at h
    rw [h]
    exact ⟨hl, List.Subset.refl l⟩
  · rw [splitOn_append_cons_self_of_not_mem hy, mem_cons] at h
    rcases h with rfl | h
    · exact ⟨hy, subset_append_left x _⟩
    · have hlt : z.length < n := by
        rw [← hn, length_append, length_cons]
        omega
      obtain ⟨hsep, hsub⟩ := ih z.length hlt h rfl
      exact ⟨hsep, fun a ha => mem_append_right y (mem_cons_of_mem sep (hsub ha))⟩

theorem head_splitOn (sep : α) (l : List α) : (l.splitOn sep)[0]? = some (cut sep l).1 := by
  rcases cut_cases sep l with ⟨hl, hcut⟩ | ⟨x, y, hx, rfl, hcut⟩
  · rw [splitOn_eq_singleton hl, hcut]
    rfl
  · rw [splitOn_append_cons_self_of_not_mem hx, hcut]
    rfl

variable {xs : List (List α)}

omit [DecidableEq α] in
theorem mem_intercalate {sep a : α} (h : a ∈ [sep].intercalate xs) : a = sep ∨ ∃ x ∈ xs, a ∈ x := by
  induction xs with
  | nil => simp at h
  | cons x xs ih =>
    cases xs with
    | nil => exact .inr ⟨x, by simp, by simpa using h⟩
    | cons y xs =>
      rw [intercalate_cons_cons, append_assoc, mem_append, singleton_append, mem_cons] at h
      rcases h with h | h | h
      · exact .inr ⟨x, mem_cons_self, h⟩
      · exact .inl h
      · rcases ih h with h | ⟨z, hz, h⟩
        · exact .inl h
        · exact .inr ⟨z, mem_cons_of_mem _ hz, h⟩

omit [DecidableEq α] in
theorem intercalate_eq_nil {sep : α} (h : [sep].intercalate xs = []) : xs = [] ∨ xs = [[]] := by
  match xs with
  | [] => exact .inl rfl
  | [x] => exact .inr (by simpa using h)
  | x :: y :: xs =>
    rw [intercalate_cons_cons] at h
    simp at h

theorem splitOn_intercalate_eq_flatMap (sep : α) (h : xs ≠ []) :
    ([sep].intercalate xs).splitOn sep = xs.flatMap (List.splitOn sep) := by
  induction xs with
  | nil => exact absurd rfl h
  | cons x xs ih =>
    cases xs with
    | nil => simp
    | cons y xs =>
      rw [intercalate_cons_cons, append_assoc, singleton_append,
        splitOn_append_cons_self, ih (cons_ne_nil y xs)]
      rfl

theorem splitOn_append_of_not_mem {sep : α} {r : List α} (hr : sep ∉ r) (l : List α) :
    ∃ init last, l.splitOn sep = init ++ [last] ∧ (l ++ r).splitOn sep = init ++ [last ++ r] := by
  induction hn : l.length using Nat.strong_induction_on generalizing l with
  | _ n ih =>
  rcases cut_cases sep l with ⟨hl, -⟩ | ⟨x, y, hx, rfl, -⟩
  · refine ⟨[], l, splitOn_eq_singleton hl, splitOn_eq_singleton ?_⟩
    simp [hl, hr]
  · have hlt : y.length < n := by
      rw [← hn, length_append, length_cons]
      omega
    obtain ⟨init, last, hy, hyr⟩ := ih y.length hlt y rfl
    refine ⟨x :: init, last, ?_, ?_⟩
    · rw [splitOn_append_cons_self_of_not_mem hx, hy, cons_append]
    · rw [append_assoc, cons_append, splitOn_append_cons_self_of_not_mem hx, hyr, cons_append]

theorem not_mem_of_length_splitOn {sep : α}
    (h : (xs.flatMap (List.splitOn sep)).length ≤ xs.length) : ∀ x ∈ xs, sep ∉ x := by
  have hpos : ∀ x : List α, 1 ≤ (x.splitOn sep).length :=
    fun x => length_pos_iff.mpr (splitOn_ne_nil sep x)
  have hle : ∀ xs : List (List α), xs.length ≤ (xs.flatMap (List.splitOn sep)).length := by
    intro xs
    induction xs with
    | nil => exact Nat.le_refl 0
    | cons x xs ih =>
      have := hpos x
      rw [flatMap_cons, length_append, length_cons]
      omega
  induction xs with
  | nil => simp
  | cons x xs ih =>
    rw [flatMap_cons, length_append, length_cons] at h
    have hxs := hle xs
    have hx := hpos x
    intro y hy
    rcases mem_cons.mp hy with rfl | hy
    · intro hmem
      obtain ⟨a, b, rfl, ha⟩ := eq_append_cons_of_mem hmem
      have hb := hpos b
      rw [splitOn_append_cons_self_of_not_mem ha, length_cons] at h
      omega
    · exact ih (by omega) y hy

end Cut

/-! ### The first occurrence of a pattern -/

section Replace

variable {α : Type*} [DecidableEq α]

/-- `l` with the first occurrence of `pat` replaced by `rep`. -/
def replaceFirst (pat rep : List α) : List α → List α
  | [] => if pat = [] then rep else []
  | a :: l =>
    if pat.isPrefixOf (a :: l) then rep ++ (a :: l).drop pat.length
    else a :: replaceFirst pat rep l

theorem replaceFirst_append {x : α} (pat rep r : List α) (hx : x ∉ l) :
    replaceFirst (x :: pat) rep (l ++ (x :: pat) ++ r) = l ++ rep ++ r := by
  induction l with
  | nil => simp [replaceFirst]
  | cons a l ih =>
    have hne : ¬ x = a := fun h => hx (by simp [h])
    have ih' := ih fun h => hx (mem_cons_of_mem _ h)
    simp only [cons_append, append_assoc] at ih' ⊢
    rw [replaceFirst, isPrefixOf_cons_cons, beq_false_of_ne hne, Bool.false_and,
      if_neg Bool.false_ne_true, ih']

/-- Elements before the first occurrence of the pattern's first element are passed over, and so is
that element when the pattern does not go on there. -/
theorem replaceFirst_skip {x : α} (pat rep r : List α) (hx : x ∉ l)
    (hpat : ¬ (x :: pat) <+: (x :: r)) :
    replaceFirst (x :: pat) rep (l ++ x :: r) = l ++ x :: replaceFirst (x :: pat) rep r := by
  induction l with
  | nil =>
    rw [nil_append, replaceFirst, if_neg, nil_append]
    rwa [ isPrefixOf_iff_prefix]
  | cons a l ih =>
    have hne : ¬ x = a := fun h => hx (by simp [h])
    rw [cons_append, replaceFirst, isPrefixOf_cons_cons, beq_false_of_ne hne,
      Bool.false_and, if_neg Bool.false_ne_true, ih fun h => hx (mem_cons_of_mem _ h),
      cons_append]

theorem replaceFirst_of_not_infix {pat : List α} (rep : List α) (h : ¬ pat <:+: l) :
    replaceFirst pat rep l = l := by
  induction l with
  | nil =>
    have hne : pat ≠ [] := by
      rintro rfl
      exact h nil_infix
    rw [replaceFirst, if_neg hne]
  | cons a l ih =>
    have hpre : ¬ pat.isPrefixOf (a :: l) = true := by
      rw [ isPrefixOf_iff_prefix]
      exact fun hp => h hp.isInfix
    rw [replaceFirst, if_neg hpre, ih fun hi => h (hi.trans (suffix_cons a l).isInfix)]

omit [DecidableEq α] in
theorem eq_of_field_prefix {sep : α} {w p u v : List α} (hw : sep ∉ w) (hp : sep ∉ p)
    (h : (w ++ sep :: u) <+: (p ++ sep :: v)) : w = p := by
  induction w generalizing p with
  | nil =>
    cases p with
    | nil => rfl
    | cons b p =>
      obtain ⟨h1, -⟩ := cons_prefix_cons.mp h
      exact absurd (h1 ▸ mem_cons_self) hp
  | cons a w ih =>
    cases p with
    | nil =>
      obtain ⟨h1, -⟩ := cons_prefix_cons.mp h
      exact absurd (h1 ▸ mem_cons_self) hw
    | cons b p =>
      obtain ⟨rfl, h2⟩ := cons_prefix_cons.mp h
      rw [ih (fun h => hw (mem_cons_of_mem _ h)) (fun h => hp (mem_cons_of_mem _ h)) h2]

/-- `l` up to its last `sep`, as `l.slice(0, l.lastIndexOf(sep))`: without one, `lastIndexOf` is
`-1` and the last element goes. -/
def beforeLast (sep : α) (l : List α) : List α :=
  if sep ∈ l then ((l.reverse.dropWhile (· ≠ sep)).drop 1).reverse else l.dropLast

theorem beforeLast_append {sep : α} (l : List α) {r : List α} (hr : sep ∉ r) :
    beforeLast sep (l ++ sep :: r) = l := by
  have hdrop : ((l ++ sep :: r).reverse.dropWhile (· ≠ sep)) = sep :: l.reverse := by
    have hrev : (l ++ sep :: r).reverse = r.reverse ++ sep :: l.reverse := by simp
    rw [hrev, dropWhile_append_of_pos, dropWhile_cons_of_neg (by simp)]
    intro a ha
    have hne : a ≠ sep := fun h => hr (by rw [← h]; exact mem_reverse.mp ha)
    simpa using hne
  rw [beforeLast, if_pos (by simp), hdrop]
  simp

end Replace

def decimal (digits : List Char) : ℕ :=
  digits.foldl (fun n ch => 10 * n + (ch.toNat - '0'.toNat)) 0

theorem decimal_toDigits (n : ℕ) : decimal (Nat.toDigits 10 n) = n := by
  have hfold := Nat.ofDigitChars_ten_toDigits (n := n)
  rw [Nat.ofDigitChars_eq_foldl] at hfold
  exact hfold

theorem isDigit_toDigits {n : ℕ} {c : Char} (hc : c ∈ Nat.toDigits 10 n) : c.isDigit = true :=
  Nat.isDigit_of_mem_toDigits (by decide) (by decide) hc

end IncusCloud.Lib
