import Mathlib.Tactic.SplitIfs

/-!
# Runs of a transition system

A system takes steps `step s a`, each by an action; an action that is not possible in a state has
none. `Run step ok s t`: some run leads from `s` to `t`, every step of it meeting `ok`.
-/

namespace IncusCloud.Lib

variable {S A : Type*}

/-- The states some run from `s` leads to, by steps that meet `ok`. -/
inductive Run (step : S → A → Option S) (ok : S → A → Prop) (s : S) : S → Prop
  | refl : Run step ok s s
  | tail {t u : S} (a : A) : Run step ok s t → ok t a → step t a = some u → Run step ok s u

namespace Run

variable {step : S → A → Option S} {ok : S → A → Prop} {s t : S}

theorem invariant {I : S → Prop} (h : Run step ok s t) (h0 : I s)
    (hstep : ∀ t a u, I t → ok t a → step t a = some u → I u) : I t := by
  induction h with
  | refl => exact h0
  | tail a _ hok hs ih => exact hstep _ a _ ih hok hs

/-- The state a list of actions leads to, each met by `ok` where it is taken. -/
def exec (step : S → A → Option S) (ok : S → A → Prop) [∀ s a, Decidable (ok s a)] :
    S → List A → Option S
  | s, [] => some s
  | s, a :: as => if ok s a then (step s a).bind fun t => exec step ok t as else none

theorem of_exec [∀ s a, Decidable (ok s a)] {as : List A} (h : Run step ok s t) {u : S}
    (hexec : exec step ok t as = some u) : Run step ok s u := by
  induction as generalizing t with
  | nil =>
    obtain rfl := Option.some.inj hexec
    exact h
  | cons a as ih =>
    unfold exec at hexec
    split_ifs at hexec with hok
    obtain ⟨v, hv, hexec⟩ := Option.bind_eq_some_iff.mp hexec
    exact ih (.tail a h hok hv) hexec

theorem exists_of_exec [∀ s a, Decidable (ok s a)] {p : S → Prop} [DecidablePred p] (as : List A)
    (h : (exec step ok s as).any (fun t => decide (p t)) = true) : ∃ t, Run step ok s t ∧ p t := by
  obtain ⟨t, ht, hp⟩ := (Option.any_eq_true _ _).mp h
  exact ⟨t, of_exec .refl ht, of_decide_eq_true hp⟩

end Run

end IncusCloud.Lib
