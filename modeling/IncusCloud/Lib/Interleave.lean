import IncusCloud.Lib.Handler
import IncusCloud.Lib.Run
import Mathlib.Logic.Function.Basic
import Mathlib.Logic.Relation

/-!
# Handlers that run at the same time

Any number of programs make their calls in any order on one world. A `Team` says what a call does
when a program makes it, which may have to wait, and what others do to the world.

A program is `safe` when each of its calls keeps the invariant and the program's guarantee, whatever
the others did before it within what the program relies on. If each one's guarantee is within what
the others rely on, then every run keeps them all (`Team.run_safe`).
-/

namespace IncusCloud.Lib

open Option

variable {ι C : Type} {R : C → Type} {ε W O X α β L : Type}

/-- What the calls of programs that share a world do. None: the call has to wait, or cannot go so. -/
structure Team (ι C : Type) (R : C → Type) (ε W O X : Type) where
  answer : ι → (c : C) → W → O → Option (Except ε (R c) × W)
  outside : W → X → Option W

/-- What is asked of the programs and of the others. -/
structure Protocol (ι C W X : Type) where
  ok : ι → C → W → Prop
  okOutside : X → W → Prop
  inv : W → Prop
  rely : ι → W → W → Prop
  guar : ι → W → W → Prop

structure Procs (ι C : Type) (R : C → Type) (ε W β : Type) where
  world : W
  progs : ι → Prog C R ε β

inductive ProcAction (ι O X : Type)
  | call (i : ι) (o : O)
  | outside (x : X)

namespace Team

variable [DecidableEq ι]

def step (T : Team ι C R ε W O X) (s : Procs ι C R ε W β) :
    ProcAction ι O X → Option (Procs ι C R ε W β)
  | .call i o =>
    match s.progs i with
    | .ret _ => none
    | .call c k =>
      (T.answer i c s.world o).map fun r => ⟨r.2, Function.update s.progs i (k r.1)⟩
  | .outside x => (T.outside s.world x).map fun w => { s with world := w }

end Team

def okStep (ok : ι → C → W → Prop) (okOutside : X → W → Prop) (s : Procs ι C R ε W β) :
    ProcAction ι O X → Prop
  | .call i _ =>
    match s.progs i with
    | .ret _ => True
    | .call c _ => ok i c s.world
  | .outside x => okOutside x s.world

instance (ok : ι → C → W → Prop) (okOutside : X → W → Prop) [∀ i c w, Decidable (ok i c w)]
    [∀ x w, Decidable (okOutside x w)] (s : Procs ι C R ε W β) (a : ProcAction ι O X) :
    Decidable (okStep ok okOutside s a) :=
  match a with
  | .call i _ =>
    match h : s.progs i with
    | .ret _ => .isTrue (by simp only [okStep, h])
    | .call c _ => decidable_of_iff (ok i c s.world) (by simp only [okStep, h])
  | .outside x => inferInstanceAs (Decidable (okOutside x s.world))

namespace Prog

def returned : Prog C R ε β → Option β
  | ret b => some b
  | call _ _ => none

variable {T : Team ι C R ε W O X} {P : Protocol ι C W X} {i : ι}

/-- However its calls go, and whatever the others do in between, each call keeps the invariant and
the guarantee, and `Q` holds at the end. -/
def safe (T : Team ι C R ε W O X) (P : Protocol ι C W X) (i : ι) (Q : β → W → Prop) :
    Prog C R ε β → W → Prop
  | ret b, w => Q b w
  | call c k, w =>
    ∀ w', Relation.ReflTransGen (P.rely i) w w' → P.inv w' → P.ok i c w' →
      ∀ o r, T.answer i c w' o = some r → P.inv r.2 ∧ P.guar i w' r.2 ∧ (k r.1).safe T P i Q r.2

theorem safe_bind (p : Prog C R ε α) (f : α → Prog C R ε β) (Q : β → W → Prop) (w : W) :
    (p.bind f).safe T P i Q w ↔ p.safe T P i (fun a => (f a).safe T P i Q) w := by
  induction p generalizing w with
  | ret a => exact Iff.rfl
  | call c k ih =>
    refine forall_congr' fun w' => forall_congr' fun _ => forall_congr' fun _ => forall_congr' fun _ =>
      forall_congr' fun o => forall_congr' fun r => forall_congr' fun _ => ?_
    exact and_congr_right fun _ => and_congr_right fun _ => ih _ _

variable {p : Prog C R ε β} {w : W}

theorem safe_mono {Q Q' : β → W → Prop} (hQ : ∀ b w, Q b w → Q' b w)
    (h : p.safe T P i Q w) : p.safe T P i Q' w := by
  induction p generalizing w with
  | ret b => exact hQ b w h
  | call c k ih =>
    intro w' hw' hinv hok o r hr
    obtain ⟨hinv', hguar, hrest⟩ := h w' hw' hinv hok o r hr
    exact ⟨hinv', hguar, ih _ hrest⟩

theorem safe_congr {Q Q' : β → W → Prop} (h : ∀ b w, Q b w ↔ Q' b w) (p : Prog C R ε β) (w : W) :
    p.safe T P i Q w ↔ p.safe T P i Q' w :=
  ⟨safe_mono fun b w => (h b w).mp, safe_mono fun b w => (h b w).mpr⟩

theorem safe.returned {Q : β → W → Prop} {b : β}
    (h : p.safe T P i Q w) (hb : p.returned = some b) : Q b w := by
  cases p with
  | ret b' =>
    obtain rfl := some.inj hb
    exact h
  | call c k => cases hb

theorem safe_rely {Q : β → W → Prop} (hQ : ∀ b w w', P.rely i w w' → Q b w → Q b w') {w w' : W}
    (hw : P.rely i w w') (h : p.safe T P i Q w) : p.safe T P i Q w' := by
  cases p with
  | ret b => exact hQ b w w' hw h
  | call c k => exact fun w'' hw'' => h w'' (.head hw hw'')

end Prog

namespace Team

variable [DecidableEq ι] {T : Team ι C R ε W O X} {P : Protocol ι C W X}

/-- What each program guarantees is within what the others rely on, and so is what others do. -/
structure Compatible (T : Team ι C R ε W O X) (P : Protocol ι C W X) : Prop where
  guar : ∀ i j w w', i ≠ j → P.inv w → P.inv w' → P.guar i w w' → P.rely j w w'
  outside : ∀ x w w', P.inv w → P.okOutside x w → T.outside w x = some w' →
    P.inv w' ∧ ∀ j, P.rely j w w'

/-- The invariant holds, and what is left of each program is safe. -/
structure Sound (T : Team ι C R ε W O X) (P : Protocol ι C W X) (Q : ι → β → W → Prop)
    (s : Procs ι C R ε W β) : Prop where
  inv : P.inv s.world
  safe : ∀ i, (s.progs i).safe T P i (Q i) s.world

variable {Q : ι → β → W → Prop} {s t : Procs ι C R ε W β}

theorem Sound.call (h : Sound T P Q s) (hcompat : Compatible T P)
    (hQ : ∀ i b w w', P.rely i w w' → Q i b w → Q i b w') {i : ι} {o : O}
    (hok : okStep P.ok P.okOutside s (.call i o : ProcAction ι O X)) (hs : T.step s (.call i o) = some t) :
    Sound T P Q t ∧ P.guar i s.world t.world := by
  unfold Team.step at hs
  unfold okStep at hok
  dsimp only at hs hok
  have hsafe := h.safe i
  split at hs
  · cases hs
  · rename_i c k hi
    obtain ⟨r, hr, rfl⟩ := map_eq_some_iff.mp hs
    rw [hi] at hok hsafe
    obtain ⟨hinv, hguar, hrest⟩ := hsafe s.world .refl h.inv hok o r hr
    refine ⟨⟨hinv, fun j => ?_⟩, hguar⟩
    by_cases hj : j = i
    · subst hj
      show Prog.safe T P j (Q j) (Function.update s.progs j (k r.1) j) r.2
      rw [Function.update_self]
      exact hrest
    · show Prog.safe T P j (Q j) (Function.update s.progs i (k r.1) j) r.2
      rw [Function.update_of_ne hj]
      exact Prog.safe_rely (hQ j) (hcompat.guar i j _ _ (Ne.symm hj) h.inv hinv hguar) (h.safe j)

theorem Sound.outside (h : Sound T P Q s) (hcompat : Compatible T P)
    (hQ : ∀ i b w w', P.rely i w w' → Q i b w → Q i b w') {x : X}
    (hok : P.okOutside x s.world) (hs : T.step s (.outside x) = some t) : Sound T P Q t := by
  obtain ⟨w, hw, rfl⟩ := map_eq_some_iff.mp hs
  obtain ⟨hinv, hrely⟩ := hcompat.outside x s.world w h.inv hok hw
  exact ⟨hinv, fun j => Prog.safe_rely (hQ j) (hrely j) (h.safe j)⟩

theorem run_safe (hcompat : Compatible T P) (hQ : ∀ i b w w', P.rely i w w' → Q i b w → Q i b w')
    (h0 : Sound T P Q s) (h : Run T.step (okStep P.ok P.okOutside) s t) : Sound T P Q t := by
  refine h.invariant (I := Sound T P Q) h0 fun _ a _ hsound hok hs => ?_
  cases a with
  | call i o => exact (hsound.call hcompat hQ hok hs).1
  | outside x => exact hsound.outside hcompat hQ hok hs

end Team

/-! ### Handlers -/

namespace Handler

variable {T : Team ι C R ε W O X} {P : Protocol ι C W X} {i : ι} {Q : α → L → W → Prop}
  {E : ε → L → W → Prop}

/-- A handler is safe, with `Q` where it returns and `E` where it throws. -/
def safe (T : Team ι C R ε W O X) (P : Protocol ι C W X) (i : ι) (Q : α → L → W → Prop)
    (E : ε → L → W → Prop) (m : Handler C R ε L α) (l : L) (w : W) : Prop :=
  (m l).safe T P i
    (fun
      | (.ok a, l) => Q a l
      | (.error e, l) => E e l)
    w

@[simp]
theorem safe_pure (a : α) (l : L) (w : W) : safe T P i Q E (pure a) l w ↔ Q a l w := Iff.rfl

@[simp]
theorem safe_throw (e : ε) (l : L) (w : W) : safe T P i Q E (throw e) l w ↔ E e l w := Iff.rfl

@[simp]
theorem safe_assign {Q : Unit → L → W → Prop} (f : L → L) (l : L) (w : W) :
    safe T P i Q E (assign f) l w ↔ Q () (f l) w := Iff.rfl

@[simp]
theorem safe_locals {Q : L → L → W → Prop} (l : L) (w : W) :
    safe T P i Q E locals l w ↔ Q l l w := Iff.rfl

@[simp]
theorem safe_bind {Q : β → L → W → Prop} (m : Handler C R ε L α) (f : α → Handler C R ε L β)
    (l : L) (w : W) :
    safe T P i Q E (m >>= f) l w ↔ safe T P i (fun a => safe T P i Q E (f a)) E m l w := by
  refine (Prog.safe_bind _ _ _ _).trans (Prog.safe_congr ?_ _ _)
  rintro ⟨r, l⟩ w
  cases r <;> rfl

@[simp]
theorem safe_tryCatch (m : Handler C R ε L α) (h : ε → Handler C R ε L α) (l : L) (w : W) :
    safe T P i Q E (tryCatch m h) l w ↔ safe T P i Q (fun e => safe T P i Q E (h e)) m l w := by
  refine (Prog.safe_bind _ _ _ _).trans (Prog.safe_congr ?_ _ _)
  rintro ⟨r, l⟩ w
  cases r <;> rfl

@[simp]
theorem safe_andFinally (m : Handler C R ε L α) (f : Handler C R ε L Unit) (l : L) (w : W) :
    safe T P i Q E (m.andFinally f) l w ↔
      safe T P i (fun a => safe T P i (fun _ => Q a) E f)
        (fun e => safe T P i (fun _ => E e) E f) m l w := by
  refine (Prog.safe_bind _ _ _ _).trans (Prog.safe_congr ?_ _ _)
  rintro ⟨r, l⟩ w
  cases r with
  | ok a =>
    refine (Prog.safe_bind _ _ _ _).trans (Prog.safe_congr ?_ _ _)
    rintro ⟨s, l⟩ w
    cases s <;> rfl
  | error e =>
    refine (Prog.safe_bind _ _ _ _).trans (Prog.safe_congr ?_ _ _)
    rintro ⟨s, l⟩ w
    cases s <;> rfl

@[simp]
theorem safe_when {Q : Unit → L → W → Prop} (c : Bool) (m : Handler C R ε L Unit) (l : L) (w : W) :
    safe T P i Q E (when c m) l w ↔ if c then safe T P i Q E m l w else Q () l w := by
  cases c <;> rfl

variable {m : Handler C R ε L α}

theorem safe_mono {Q' : α → L → W → Prop} {E' : ε → L → W → Prop} (hQ : ∀ a l w, Q a l w → Q' a l w)
    (hE : ∀ e l w, E e l w → E' e l w) {l : L}
    (h : safe T P i Q E m l w) : safe T P i Q' E' m l w := by
  refine Prog.safe_mono ?_ h
  rintro ⟨r, l⟩ w
  cases r with
  | ok a => exact hQ a l w
  | error e => exact hE e l w

theorem safe_seq {Q' : α → L → W → Prop} {Q : β → L → W → Prop}
    {f : α → Handler C R ε L β} {l : L} (h : safe T P i Q' E m l w)
    (hf : ∀ a l w, Q' a l w → safe T P i Q E (f a) l w) : safe T P i Q E (m >>= f) l w := by
  rw [safe_bind]
  exact safe_mono hf (fun _ _ _ h => h) h

theorem safe_call {c : C} {Q : R c → L → W → Prop} {J : W → Prop} {l : L}
    (hJ : ∀ w w', P.rely i w w' → J w → J w')
    (h : ∀ w' o r, J w' → P.inv w' → P.ok i c w' → T.answer i c w' o = some r →
      P.guar i w' r.2 ∧ Met P.inv (fun a => Q a l) (fun e => E e l) r)
    (hw : J w) : safe T P i Q E (call c) l w := by
  have hkept : ∀ w', Relation.ReflTransGen (P.rely i) w w' → J w' := by
    intro w' hw'
    induction hw' with
    | refl => exact hw
    | tail _ hstep ih => exact hJ _ _ hstep ih
  intro w' hw' hinv hok o r hr
  have hthere := hkept w' hw'
  obtain ⟨hguar, hinv', hmet⟩ := h w' o r hthere hinv hok hr
  refine ⟨hinv', hguar, ?_⟩
  obtain ⟨a, w''⟩ := r
  cases a with
  | ok a => exact hmet
  | error e => exact hmet

/-! ### Handlers that maintain something while others run -/

/-- However it goes and whatever the others do, what `J` says of the world stays true. -/
def Maintains (T : Team ι C R ε W O X) (P : Protocol ι C W X) (i : ι) (J : W → Prop)
    (m : Handler C R ε L α) : Prop :=
  ∀ l w, J w → safe T P i (fun _ _ => J) (fun _ _ => J) m l w

section Maintains

variable {J : W → Prop}

theorem Maintains.safe (hm : Maintains T P i J m) {l : L} (hw : J w)
    (hQ : ∀ a l w, J w → Q a l w) (hE : ∀ e l w, J w → E e l w) : safe T P i Q E m l w :=
  safe_mono hQ hE (hm l w hw)

theorem Maintains.call {c : C} (hJ : ∀ w w', P.rely i w w' → J w → J w')
    (h : ∀ w o r, J w → P.inv w → P.ok i c w → T.answer i c w o = some r →
      P.inv r.2 ∧ P.guar i w r.2 ∧ J r.2) :
    Maintains T P i J (call c : Handler C R ε L (R c)) := by
  intro l w hw
  refine safe_call hJ (fun w o r hw hinv hok hr => ?_) hw
  obtain ⟨hinv', hguar, hkept⟩ := h w o r hw hinv hok hr
  exact ⟨hguar, .of_forall hinv' (fun _ => hkept) fun _ => hkept⟩

theorem Maintains.pure (a : α) : Maintains T P i J (pure a : Handler C R ε L α) := fun _ _ hw => hw

theorem Maintains.throw (e : ε) : Maintains T P i J (throw e : Handler C R ε L α) := fun _ _ hw => hw

theorem Maintains.locals : Maintains T P i J (locals : Handler C R ε L L) := fun _ _ hw => hw

theorem Maintains.assign (f : L → L) : Maintains T P i J (assign f : Handler C R ε L Unit) :=
  fun _ _ hw => hw

theorem Maintains.bind {f : α → Handler C R ε L β}
    (hm : Maintains T P i J m) (hf : ∀ a, Maintains T P i J (f a)) :
    Maintains T P i J (m >>= f) := by
  intro l w hw
  rw [safe_bind]
  exact safe_mono (fun a l w hw => hf a l w hw) (fun _ _ _ hw => hw) (hm l w hw)

theorem Maintains.tryCatch {h : ε → Handler C R ε L α}
    (hm : Maintains T P i J m) (hh : ∀ e, Maintains T P i J (h e)) :
    Maintains T P i J (tryCatch m h) := by
  intro l w hw
  rw [safe_tryCatch]
  exact safe_mono (fun _ _ _ hw => hw) (fun e l w hw => hh e l w hw) (hm l w hw)

theorem Maintains.when {m : Handler C R ε L Unit} (c : Bool) (hm : Maintains T P i J m) :
    Maintains T P i J (when c m) := by
  cases c
  · exact Maintains.pure ()
  · exact hm

end Maintains

end Handler

end IncusCloud.Lib
