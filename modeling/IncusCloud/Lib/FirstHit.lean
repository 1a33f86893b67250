import Mathlib.Data.List.Basic

/-!
# The first level that answers

`firstHit f ls` walks levels from the most specific one and stops at the first whose answer is not
empty. A resolution by the most specific rule is such a walk: these lemmas say when a level
decides, and where the walk stops.
-/

namespace IncusCloud.Lib

variable {L A : Type*}

/-- The answer of the first level of `ls` that has one. -/
def firstHit (f : L → List A) : List L → List A
  | [] => []
  | l :: ls => if (f l).isEmpty then firstHit f ls else f l

@[simp] theorem firstHit_nil (f : L → List A) : firstHit f [] = [] := rfl

variable {f : L → List A}

theorem firstHit_cons_of_eq_nil {l : L} (ls : List L) (h : f l = []) :
    firstHit f (l :: ls) = firstHit f ls := by
  simp [firstHit, h]

theorem firstHit_cons_of_ne_nil {l : L} (ls : List L) (h : f l ≠ []) :
    firstHit f (l :: ls) = f l := by
  simp [firstHit, h]

theorem firstHit_eq_nil {ls : List L} : firstHit f ls = [] ↔ ∀ l ∈ ls, f l = [] := by
  induction ls with
  | nil => simp
  | cons l ls ih =>
    by_cases h : f l = []
    · rw [firstHit_cons_of_eq_nil ls h, ih]
      simp [h]
    · rw [firstHit_cons_of_ne_nil ls h]
      simp [h]

theorem exists_of_mem_firstHit {ls : List L} {a : A} (h : a ∈ firstHit f ls) :
    ∃ l ∈ ls, firstHit f ls = f l ∧ a ∈ f l := by
  induction ls with
  | nil => simp at h
  | cons l ls ih =>
    by_cases hl : f l = []
    · rw [firstHit_cons_of_eq_nil ls hl] at h ⊢
      obtain ⟨m, hm, he, ha⟩ := ih h
      exact ⟨m, List.mem_cons_of_mem _ hm, he, ha⟩
    · rw [firstHit_cons_of_ne_nil ls hl] at h ⊢
      exact ⟨l, List.mem_cons_self, rfl, h⟩

theorem firstHit_cases (f : L → List A) (ls : List L) :
    (∃ pre l post, ls = pre ++ l :: post ∧ (∀ m ∈ pre, f m = []) ∧ f l ≠ [] ∧
        firstHit f ls = f l) ∨ ∀ m ∈ ls, f m = [] := by
  induction ls with
  | nil => exact .inr (by simp)
  | cons l ls ih =>
    by_cases hl : f l = []
    · rcases ih with ⟨pre, m, post, rfl, hpre, hm, hf⟩ | hall
      · refine .inl ⟨l :: pre, m, post, rfl, ?_, hm, ?_⟩
        · intro x hx
          rcases List.mem_cons.mp hx with rfl | hx
          · exact hl
          · exact hpre x hx
        · rw [firstHit_cons_of_eq_nil _ hl, hf]
      · refine .inr fun x hx => ?_
        rcases List.mem_cons.mp hx with rfl | hx
        · exact hl
        · exact hall x hx
    · exact .inl ⟨[], l, ls, rfl, by simp, hl, firstHit_cons_of_ne_nil _ hl⟩

theorem mem_firstHit_congr {f g : L → List A} (ls : List L) (h : ∀ l ∈ ls, ∀ a, a ∈ f l ↔ a ∈ g l)
    (a : A) : a ∈ firstHit f ls ↔ a ∈ firstHit g ls := by
  induction ls with
  | nil => rfl
  | cons l ls ih =>
    have hhead := h l List.mem_cons_self
    have hnil : f l = [] ↔ g l = [] := by
      simp only [List.eq_nil_iff_forall_not_mem, hhead]
    by_cases hl : f l = []
    · rw [firstHit_cons_of_eq_nil ls hl, firstHit_cons_of_eq_nil ls (hnil.mp hl),
        ih fun m hm => h m (List.mem_cons_of_mem l hm)]
    · rw [firstHit_cons_of_ne_nil ls hl, firstHit_cons_of_ne_nil ls fun he => hl (hnil.mpr he), hhead]

theorem firstHit_append (f : L → List A) (ls ms : List L) :
    firstHit f (ls ++ ms) = if firstHit f ls = [] then firstHit f ms else firstHit f ls := by
  induction ls with
  | nil => simp
  | cons l ls ih =>
    by_cases hl : f l = []
    · rw [List.cons_append, firstHit_cons_of_eq_nil _ hl, firstHit_cons_of_eq_nil _ hl, ih]
    · rw [List.cons_append, firstHit_cons_of_ne_nil _ hl, firstHit_cons_of_ne_nil _ hl,
        if_neg hl]

end IncusCloud.Lib
