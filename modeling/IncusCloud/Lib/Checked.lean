import Mathlib.Tactic.SplitIfs

/-!
# Checked computations

A request handler is a sequence of checks and queries in `Except`: the first check that fails ends
it. `bind_eq_ok` and `need_eq_ok` read off what a handler that succeeded has checked.
-/

namespace IncusCloud.Lib

variable {ε α β : Type*}

def need (c : Prop) [Decidable c] (e : ε) : Except ε Unit := if c then .ok () else .error e

theorem need_eq_ok {c : Prop} [Decidable c] {e : ε} {u : Unit} : need c e = .ok u ↔ c := by
  unfold need
  split_ifs with h
  · simp [h]
  · simp [h]

/-- What a query must find, with the fact that it did. -/
def found {ε α : Type} (x : Option α) (e : ε) : Except ε {a : α // x = some a} :=
  match x with
  | some a => .ok ⟨a, rfl⟩
  | none => .error e

theorem bind_eq_ok {ε α β : Type} {x : Except ε α} {f : α → Except ε β} {b : β} :
    (x >>= f) = .ok b ↔ ∃ a, x = .ok a ∧ f a = .ok b := by
  cases x with
  | error e => simp [bind, Except.bind]
  | ok a => simp [bind, Except.bind]

theorem forM_eq_ok {ε α : Type} {l : List α} {f : α → Except ε Unit} {u : Unit} :
    l.forM f = .ok u ↔ ∀ a ∈ l, f a = .ok () := by
  induction l with
  | nil => exact iff_of_true rfl (List.forall_mem_nil _)
  | cons a l ih =>
    have hstep : (a :: l).forM f = .ok u ↔ ∃ x, f a = .ok x ∧ l.forM f = .ok u := bind_eq_ok
    rw [hstep, ih, List.forall_mem_cons]
    exact ⟨fun ⟨_, ha, hl⟩ => ⟨ha, hl⟩, fun ⟨ha, hl⟩ => ⟨(), ha, hl⟩⟩

theorem need_bind_eq_ok {ε β : Type} {c : Prop} [Decidable c] {e : ε} {f : Unit → Except ε β}
    {b : β} : (need c e >>= f) = .ok b ↔ c ∧ f () = .ok b := by
  rw [bind_eq_ok]
  constructor
  · rintro ⟨a, ha, hf⟩
    exact ⟨need_eq_ok.mp ha, hf⟩
  · rintro ⟨hc, hf⟩
    exact ⟨(), need_eq_ok.mpr hc, hf⟩

theorem found_bind_eq_ok {ε α β : Type} {x : Option α} {e : ε}
    {f : {a : α // x = some a} → Except ε β} {b : β} :
    (found x e >>= f) = .ok b ↔ ∃ a, ∃ h : x = some a, f ⟨a, h⟩ = .ok b := by
  rw [bind_eq_ok]
  constructor
  · rintro ⟨⟨a, h⟩, -, hf⟩
    exact ⟨a, h, hf⟩
  · rintro ⟨a, rfl, hf⟩
    exact ⟨⟨a, rfl⟩, rfl, hf⟩

end IncusCloud.Lib
