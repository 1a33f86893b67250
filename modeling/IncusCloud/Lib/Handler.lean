import Mathlib.Tactic.SplitIfs

/-!
# Handlers: programs whose calls fail

A `Prog` makes calls and goes on with each one's answer, which may be an error. A `Handler` is such
a program with local variables and exceptions, as an `async` function with `try`, `catch` and
`finally` is. What a call answers and does to the world is a `World`'s; one `O` says how one call
goes, so a list of them is a pattern of failures, and a shorter list a run that is not over yet.

`wp` is the weakest precondition of a handler, for what holds after every call (`I`), at a normal
end and at an error; its equations are the rules a proof about a handler goes by.
-/

namespace IncusCloud.Lib

variable {C : Type} {R : C → Type} {ε L W O α β : Type}

/-- A program that makes calls `C`; the call `c` answers an `R c` or fails with an `ε`. -/
inductive Prog (C : Type) (R : C → Type) (ε β : Type) : Type
  | ret (b : β)
  | call (c : C) (k : Except ε (R c) → Prog C R ε β)

/-- What a call that goes as `o` answers, and what it leaves behind. -/
structure World (C : Type) (R : C → Type) (ε W O : Type) where
  answer : (c : C) → W → O → Except ε (R c) × W

namespace Prog

def bind : Prog C R ε α → (α → Prog C R ε β) → Prog C R ε β
  | ret a, f => f a
  | call c k, f => call c fun r => (k r).bind f

def visited (env : World C R ε W O) : Prog C R ε β → W → List O → List W
  | call c k, w, o :: os =>
    (env.answer c w o).2 :: (k (env.answer c w o).1).visited env (env.answer c w o).2 os
  | _, _, _ => []

/-- How the program ends, when the pattern says how each of its calls goes. -/
def result (env : World C R ε W O) : Prog C R ε β → W → List O → Option (β × W)
  | ret b, w, _ => some (b, w)
  | call c k, w, o :: os => (k (env.answer c w o).1).result env (env.answer c w o).2 os
  | call _ _, _, [] => none

/-- However its calls go, `I` holds after each and `Q` at the end. -/
def wp (env : World C R ε W O) (I : W → Prop) (Q : β → W → Prop) : Prog C R ε β → W → Prop
  | ret b, w => Q b w
  | call c k, w =>
    ∀ o, I (env.answer c w o).2 ∧ (k (env.answer c w o).1).wp env I Q (env.answer c w o).2

variable {env : World C R ε W O} {I : W → Prop}

theorem wp_bind (p : Prog C R ε α) (f : α → Prog C R ε β) (Q : β → W → Prop) (w : W) :
    (p.bind f).wp env I Q w ↔ p.wp env I (fun a => (f a).wp env I Q) w := by
  induction p generalizing w with
  | ret a => exact Iff.rfl
  | call c k ih => exact forall_congr' fun o => and_congr_right fun _ => ih _ _

variable {Q Q' : β → W → Prop}

theorem wp_congr (h : ∀ b w, Q b w ↔ Q' b w) (p : Prog C R ε β) (w : W) :
    p.wp env I Q w ↔ p.wp env I Q' w := by
  induction p generalizing w with
  | ret b => exact h b w
  | call c k ih => exact forall_congr' fun o => and_congr_right fun _ => ih _ _

variable {w : W}

theorem wp_mono (hQ : ∀ b w, Q b w → Q' b w) {p : Prog C R ε β}
    (h : p.wp env I Q w) : p.wp env I Q' w := by
  induction p generalizing w with
  | ret b => exact hQ b w h
  | call c k ih =>
    intro o
    exact ⟨(h o).1, ih _ (h o).2⟩

theorem wp_and {p : Prog C R ε β} (h : p.wp env I Q w) (h' : p.wp env I Q' w) :
    p.wp env I (fun b w => Q b w ∧ Q' b w) w := by
  induction p generalizing w with
  | ret b => exact ⟨h, h'⟩
  | call c k ih =>
    intro o
    exact ⟨(h o).1, ih _ (h o).2 (h' o).2⟩

theorem wp_iff_visited (p : Prog C R ε β) (w : W) :
    p.wp env I (fun _ _ => True) w ↔ ∀ os, ∀ v ∈ p.visited env w os, I v := by
  induction p generalizing w with
  | ret b => simp [wp, visited]
  | call c k ih =>
    constructor
    · intro h os v hv
      cases os with
      | nil => cases hv
      | cons o os =>
        rcases List.mem_cons.mp hv with rfl | hv
        · exact (h o).1
        · exact (ih _ _).mp (h o).2 os v hv
    · intro h o
      refine ⟨h [o] _ (List.mem_cons_self), (ih _ _).mpr fun os v hv => ?_⟩
      exact h (o :: os) v (List.mem_cons_of_mem _ hv)

theorem wp_iff_result (p : Prog C R ε β) (Q : β → W → Prop) (w : W) :
    p.wp env (fun _ => True) Q w ↔ ∀ os b v, p.result env w os = some (b, v) → Q b v := by
  induction p generalizing w with
  | ret b =>
    constructor
    · rintro h os c v ⟨⟩
      exact h
    · intro h
      exact h [] b w rfl
  | call c k ih =>
    constructor
    · intro h os b v hres
      cases os with
      | nil => cases hres
      | cons o os => exact (ih _ _).mp (h o).2 os b v hres
    · intro h o
      exact ⟨trivial, (ih _ _).mpr fun os b v hres => h (o :: os) b v hres⟩

end Prog

/-- A function with local variables `L` that returns an `α` or throws an `ε`; the locals outlive a
throw. -/
def Handler (C : Type) (R : C → Type) (ε L α : Type) : Type := L → Prog C R ε (Except ε α × L)

namespace Handler

protected def pure (a : α) : Handler C R ε L α := fun l => .ret (.ok a, l)

protected def bind (m : Handler C R ε L α) (f : α → Handler C R ε L β) : Handler C R ε L β := fun l =>
  (m l).bind fun
    | (.ok a, l) => f a l
    | (.error e, l) => .ret (.error e, l)

instance : Monad (Handler C R ε L) where
  pure := Handler.pure
  bind := Handler.bind

def call (c : C) : Handler C R ε L (R c) := fun l => .call c fun r => .ret (r, l)

def locals : Handler C R ε L L := fun l => .ret (.ok l, l)

def assign (f : L → L) : Handler C R ε L Unit := fun l => .ret (.ok (), f l)

protected def throw (e : ε) : Handler C R ε L α := fun l => .ret (.error e, l)

protected def tryCatch (m : Handler C R ε L α) (h : ε → Handler C R ε L α) : Handler C R ε L α :=
  fun l =>
    (m l).bind fun
      | (.ok a, l) => .ret (.ok a, l)
      | (.error e, l) => h e l

instance : MonadExceptOf ε (Handler C R ε L) where
  throw := Handler.throw
  tryCatch := Handler.tryCatch

/-- `try { m } finally { f }`: an error of `f` takes the place of how `m` ended. -/
def andFinally (m : Handler C R ε L α) (f : Handler C R ε L Unit) : Handler C R ε L α := fun l =>
  (m l).bind fun
    | (r, l) => (f l).bind fun
      | (.ok _, l) => .ret (r, l)
      | (.error e, l) => .ret (.error e, l)

def when (c : Bool) (m : Handler C R ε L Unit) : Handler C R ε L Unit := if c then m else pure ()

variable {env : World C R ε W O} {I : W → Prop} {Q : α → L → W → Prop} {E : ε → L → W → Prop}

/-- The weakest precondition: `I` after every call, `Q` where it returns, `E` where it throws. -/
def wp (env : World C R ε W O) (I : W → Prop) (Q : α → L → W → Prop) (E : ε → L → W → Prop)
    (m : Handler C R ε L α) (l : L) (w : W) : Prop :=
  (m l).wp env I
    (fun
      | (.ok a, l) => Q a l
      | (.error e, l) => E e l)
    w

@[simp]
theorem wp_pure (a : α) (l : L) (w : W) : wp env I Q E (pure a) l w ↔ Q a l w := Iff.rfl

@[simp]
theorem wp_throw (e : ε) (l : L) (w : W) : wp env I Q E (throw e) l w ↔ E e l w := Iff.rfl

@[simp]
theorem wp_locals {Q : L → L → W → Prop} (l : L) (w : W) :
    wp env I Q E locals l w ↔ Q l l w := Iff.rfl

@[simp]
theorem wp_assign {Q : Unit → L → W → Prop} (f : L → L) (l : L) (w : W) :
    wp env I Q E (assign f) l w ↔ Q () (f l) w := Iff.rfl

@[simp]
theorem wp_bind {Q : β → L → W → Prop} (m : Handler C R ε L α) (f : α → Handler C R ε L β)
    (l : L) (w : W) :
    wp env I Q E (m >>= f) l w ↔ wp env I (fun a => wp env I Q E (f a)) E m l w := by
  refine (Prog.wp_bind _ _ _ _).trans (Prog.wp_congr ?_ _ _)
  rintro ⟨r, l⟩ w
  cases r <;> rfl

def Met (I : W → Prop) (Q : α → W → Prop) (E : ε → W → Prop) (r : Except ε α × W) : Prop :=
  I r.2 ∧
    match r.1 with
    | .ok a => Q a r.2
    | .error e => E e r.2

theorem Met.of_forall {Q : α → W → Prop} {E : ε → W → Prop} {r : Except ε α × W} (hI : I r.2)
    (hQ : ∀ a, Q a r.2) (hE : ∀ e, E e r.2) : Met I Q E r := by
  obtain ⟨a, w⟩ := r
  cases a with
  | ok a => exact ⟨hI, hQ a⟩
  | error e => exact ⟨hI, hE e⟩

theorem wp_call (c : C) {Q : R c → L → W → Prop} (l : L) (w : W) :
    wp env I Q E (call c) l w ↔
      ∀ o, Met I (fun a => Q a l) (fun e => E e l) (env.answer c w o) := by
  refine forall_congr' fun o => and_congr_right fun _ => ?_
  rcases env.answer c w o with ⟨r, w⟩
  cases r <;> rfl

@[simp]
theorem wp_tryCatch (m : Handler C R ε L α) (h : ε → Handler C R ε L α) (l : L) (w : W) :
    wp env I Q E (tryCatch m h) l w ↔ wp env I Q (fun e => wp env I Q E (h e)) m l w := by
  refine (Prog.wp_bind _ _ _ _).trans (Prog.wp_congr ?_ _ _)
  rintro ⟨r, l⟩ w
  cases r <;> rfl

@[simp]
theorem wp_andFinally (m : Handler C R ε L α) (f : Handler C R ε L Unit) (l : L) (w : W) :
    wp env I Q E (m.andFinally f) l w ↔
      wp env I (fun a => wp env I (fun _ => Q a) E f) (fun e => wp env I (fun _ => E e) E f) m l w := by
  refine (Prog.wp_bind _ _ _ _).trans (Prog.wp_congr ?_ _ _)
  rintro ⟨r, l⟩ w
  cases r with
  | ok a =>
    refine (Prog.wp_bind _ _ _ _).trans (Prog.wp_congr ?_ _ _)
    rintro ⟨s, l⟩ w
    cases s <;> rfl
  | error e =>
    refine (Prog.wp_bind _ _ _ _).trans (Prog.wp_congr ?_ _ _)
    rintro ⟨s, l⟩ w
    cases s <;> rfl

@[simp]
theorem wp_when {Q : Unit → L → W → Prop} (c : Bool) (m : Handler C R ε L Unit) (l : L) (w : W) :
    wp env I Q E (when c m) l w ↔ if c then wp env I Q E m l w else Q () l w := by
  cases c <;> rfl

variable {m : Handler C R ε L α}

theorem wp_mono {Q' : α → L → W → Prop} {E' : ε → L → W → Prop} (hQ : ∀ a l w, Q a l w → Q' a l w)
    (hE : ∀ e l w, E e l w → E' e l w) {l : L}
    (h : wp env I Q E m l w) : wp env I Q' E' m l w := by
  refine Prog.wp_mono ?_ h
  rintro ⟨r, l⟩ w
  cases r with
  | ok a => exact hQ a l w
  | error e => exact hE e l w

theorem wp_and {Q' : α → L → W → Prop} {E' : ε → L → W → Prop} {l : L}
    (h : wp env I Q E m l w) (h' : wp env I Q' E' m l w) :
    wp env I (fun a l w => Q a l w ∧ Q' a l w) (fun e l w => E e l w ∧ E' e l w) m l w := by
  refine Prog.wp_mono ?_ (Prog.wp_and h h')
  rintro ⟨r, l⟩ w hw
  cases r <;> exact hw

/-! ### Handlers that assign nothing -/

/-- However it goes, the locals stay as they are. -/
def Steady (env : World C R ε W O) (m : Handler C R ε L α) : Prop :=
  ∀ l w, wp env (fun _ => True) (fun _ l' _ => l' = l) (fun _ l' _ => l' = l) m l w

theorem Steady.call (c : C) : Steady env (call c : Handler C R ε L (R c)) := by
  intro l w
  refine (wp_call c l w).mpr fun o => ⟨trivial, ?_⟩
  cases (env.answer c w o).1 <;> rfl

theorem Steady.pure (a : α) : Steady env (pure a : Handler C R ε L α) := fun _ _ => rfl

variable {f : α → Handler C R ε L β}

theorem Steady.bind (hm : Steady env m) (hf : ∀ a, Steady env (f a)) : Steady env (m >>= f) := by
  intro l w
  rw [wp_bind]
  refine wp_mono (fun a l' w hl => ?_) (fun _ _ _ hl => hl) (hm l w)
  rw [← hl]
  exact hf a l' w

theorem Steady.when {m : Handler C R ε L Unit} (c : Bool) (hm : Steady env m) :
    Steady env (when c m) := by
  cases c
  · exact Steady.pure ()
  · exact hm

theorem Steady.tryCatch {h : ε → Handler C R ε L α} (hm : Steady env m)
    (hh : ∀ e, Steady env (h e)) : Steady env (tryCatch m h) := by
  intro l w
  rw [wp_tryCatch]
  refine wp_mono (fun _ _ _ hl => hl) (fun e l' w hl => ?_) (hm l w)
  rw [← hl]
  exact hh e l' w

theorem Steady.wp (hm : Steady env m) {l : L}
    (hQ : ∀ a w, Q a l w) (hE : ∀ e w, E e l w) : wp env (fun _ => True) Q E m l w :=
  wp_mono (fun a _ w hl => hl ▸ hQ a w) (fun e _ w hl => hl ▸ hE e w) (hm l w)

/-! ### Handlers that keep something of the world -/

/-- However it goes, what `A` says of the world stays true. -/
def Keeps (env : World C R ε W O) (A : W → Prop) (m : Handler C R ε L α) : Prop :=
  ∀ l w, A w → wp env (fun _ => True) (fun _ _ => A) (fun _ _ => A) m l w

section Keeps

variable {A : W → Prop}

theorem Keeps.wp (hm : Keeps env A m) {l : L} (hw : A w)
    (hQ : ∀ a l w, A w → Q a l w) (hE : ∀ e l w, A w → E e l w) :
    wp env (fun _ => True) Q E m l w :=
  wp_mono hQ hE (hm l w hw)

theorem Keeps.call {c : C} (h : ∀ w o, A w → A (env.answer c w o).2) :
    Keeps env A (call c : Handler C R ε L (R c)) := by
  intro l w hw
  refine (wp_call c l w).mpr fun o => .of_forall trivial (fun _ => ?_) fun _ => ?_
  · exact h w o hw
  · exact h w o hw

theorem Keeps.pure (a : α) : Keeps env A (pure a : Handler C R ε L α) := fun _ _ hw => hw

theorem Keeps.throw (e : ε) : Keeps env A (throw e : Handler C R ε L α) := fun _ _ hw => hw

theorem Keeps.assign (f : L → L) : Keeps env A (assign f : Handler C R ε L Unit) := fun _ _ hw => hw

theorem Keeps.locals : Keeps env A (locals : Handler C R ε L L) := fun _ _ hw => hw

theorem Keeps.bind (hm : Keeps env A m) (hf : ∀ a, Keeps env A (f a)) : Keeps env A (m >>= f) := by
  intro l w hw
  rw [wp_bind]
  exact wp_mono (fun a l w hw => hf a l w hw) (fun _ _ _ hw => hw) (hm l w hw)

theorem Keeps.tryCatch {h : ε → Handler C R ε L α} (hm : Keeps env A m)
    (hh : ∀ e, Keeps env A (h e)) : Keeps env A (tryCatch m h) := by
  intro l w hw
  rw [wp_tryCatch]
  exact wp_mono (fun _ _ _ hw => hw) (fun e l w hw => hh e l w hw) (hm l w hw)

theorem Keeps.when {m : Handler C R ε L Unit} (c : Bool) (hm : Keeps env A m) :
    Keeps env A (when c m) := by
  cases c
  · exact Keeps.pure ()
  · exact hm

end Keeps

/-- What only maps the result makes no call. -/
theorem result_map {g : α → β} (hf : ∀ a, f a = pure (g a))
    (m : Handler C R ε L α) (l : L) (w : W) (os : List O) :
    ((m >>= f) l).result env w os =
      ((m l).result env w os).map fun x => ((x.1.1.map g, x.1.2), x.2) := by
  obtain rfl : f = fun a => pure (g a) := funext hf
  show (Prog.bind (m l) _).result env w os = _
  generalize m l = p
  induction p generalizing w os with
  | ret x =>
    obtain ⟨r, l⟩ := x
    cases r <;> rfl
  | call c k ih =>
    cases os with
    | nil => rfl
    | cons o os => exact ih _ _ _

theorem wp_iff_visited (m : Handler C R ε L α) (l : L) (w : W) :
    wp env I (fun _ _ _ => True) (fun _ _ _ => True) m l w ↔
      ∀ os, ∀ v ∈ (m l).visited env w os, I v := by
  refine Iff.trans (Prog.wp_congr ?_ _ _) ((m l).wp_iff_visited w)
  rintro ⟨r, l⟩ w
  cases r <;> rfl

theorem wp_iff_result (m : Handler C R ε L α) (l : L) (w : W) :
    wp env (fun _ => True) Q E m l w ↔
      ∀ os r l' v, (m l).result env w os = some ((r, l'), v) →
        match r with
        | .ok a => Q a l' v
        | .error e => E e l' v := by
  refine ((m l).wp_iff_result _ w).trans ⟨fun h os r l' v hres => ?_, fun h os b v hres => ?_⟩
  · have hend := h os (r, l') v hres
    cases r <;> exact hend
  · obtain ⟨r, l'⟩ := b
    have hend := h os r l' v hres
    cases r <;> exact hend

end Handler

/-!
### The log of a run

`World.logged` is a world that writes down each call and whether it returned, and changes nothing
else.
-/

variable {C : Type} {R : C → Type} {ε W O β : Type}

abbrev Entry (C : Type) := C × Bool

def returned {α : Type} : Except ε α → Bool
  | .ok _ => true
  | .error _ => false

def World.logged (env : World C R ε W O) : World C R ε (W × List (Entry C)) O where
  answer c w o := ((env.answer c w.1 o).1, (env.answer c w.1 o).2, w.2 ++ [(c, returned (env.answer c w.1 o).1)])

end IncusCloud.Lib
