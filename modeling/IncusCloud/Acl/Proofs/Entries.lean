import IncusCloud.Acl.Proofs.Resolve

/-!
# What a changed entry takes away

What a subject holds on a path is what the lines of the path give together (`mem_privileges`): its
chain and, for an instance, one short line for each cluster group it runs in. On one line the first
level with an entry that counts decides, so a new entry takes a privilege exactly where it comes to
decide in the place of what gave it (`Takes`), and a removed one exactly where nothing else gives it
(`Drops`).
-/

open List

namespace IncusCloud.Acl

open Lib (firstHit firstHit_cons_of_eq_nil firstHit_cons_of_ne_nil firstHit_eq_nil firstHit_append
  firstHit_cases mem_firstHit_congr)
variable {l : String × Bool} {post : List (String × Bool)}

/-! ### Levels up to the order of their entries -/

section Level

variable (ks : List Subject)

def Own (e : Entry) : Prop := some e.subject = ks.head?

def Preferred (es : List Entry) (e : Entry) : Prop := e ∈ es ∧ (Own ks e ∨ ∀ x ∈ es, ¬ Own ks x)

variable {ks} {es es' : List Entry} {owned : Bool} {q : Privilege}

theorem mem_preferOwn {e : Entry} : e ∈ preferOwn ks es ↔ Preferred ks es e := by
  unfold preferOwn Preferred Own
  dsimp only
  split_ifs with h
  · have hno : ∀ x ∈ es, ¬ some x.subject = ks.head? := by
      simpa [filter_eq_nil_iff] using h
    constructor
    · intro he
      exact ⟨he, .inr hno⟩
    · exact fun he => he.1
  · rw [mem_filter, decide_eq_true_eq]
    refine and_congr_right fun _ => ?_
    constructor
    · exact .inl
    · rintro (ho | hno)
      · exact ho
      · exact absurd (by simpa [filter_eq_nil_iff] using hno) h

theorem mem_privilegesOf_preferOwn : q ∈ privilegesOf owned (preferOwn ks es) ↔
    (∀ e, Preferred ks es e → e.role ≠ .noAccess) ∧ ∃ e, Preferred ks es e ∧ gives owned q e := by
  rw [mem_privilegesOf]
  refine and_congr ?_ ?_
  · exact forall_congr' fun e => by rw [mem_preferOwn]
  · exact exists_congr fun e => by rw [mem_preferOwn]

theorem preferred_congr (h : ∀ x, x ∈ es ↔ x ∈ es') (e : Entry) :
    Preferred ks es e ↔ Preferred ks es' e := by
  unfold Preferred
  simp only [h]

theorem mem_privilegesOf_congr (h : ∀ x, x ∈ es ↔ x ∈ es') :
    q ∈ privilegesOf owned (preferOwn ks es) ↔ q ∈ privilegesOf owned (preferOwn ks es') := by
  simp only [mem_privilegesOf_preferOwn, preferred_congr h]

end Level

/-! ### A new entry -/

section Add

variable (ks : List Subject) (e : Entry)

def CountsOn (l : String × Bool) : Prop :=
  l.1 = e.path ∧ e.subject ∈ ks ∧ (l.2 = true ∨ e.propagate = true)

/-- On a line, a new entry takes a privilege the line gives: nothing more specific than the entry's
level decides, no own entry there beats it, and it is No access, or has no such privilege and the
entries it stands beside do not decide with it. -/
def Takes (byPath : String → List Entry) (owned : Bool) (q : Privilege) (line : List String) :
    Prop :=
  ∃ pre l post, levels line = pre ++ l :: post ∧
    (∀ m ∈ pre, here ks byPath m = [] ∧ ¬ CountsOn ks e m) ∧ CountsOn ks e l ∧
    (∀ x ∈ here ks byPath l, Own ks x → Own ks e) ∧
    (e.role = .noAccess ∨ ¬ gives owned q e ∧ ∀ x ∈ here ks byPath l, ¬ Own ks x ∧ Own ks e)

variable {ks e} {byPath byPath' : String → List Entry}

def Added (e : Entry) (byPath byPath' : String → List Entry) : Prop :=
  ∀ p x, x ∈ byPath' p ↔ x ∈ byPath p ∨ x = e ∧ p = e.path

theorem mem_here_added (h : Added e byPath byPath') (l : String × Bool) (x : Entry) :
    x ∈ here ks byPath' l ↔ x ∈ here ks byPath l ∨ x = e ∧ CountsOn ks e l := by
  rw [mem_here, mem_here, h]
  constructor
  · rintro ⟨hx | ⟨rfl, hp⟩, hk, hb⟩
    · exact .inl ⟨hx, hk, hb⟩
    · exact .inr ⟨rfl, hp, hk, hb⟩
  · rintro (⟨hx, hk, hb⟩ | ⟨rfl, hp, hk, hb⟩)
    · exact ⟨.inl hx, hk, hb⟩
    · exact ⟨.inr ⟨rfl, hp⟩, hk, hb⟩

theorem here_added_of_not_counts (h : Added e byPath byPath')
    (hl : ¬ CountsOn ks e l) (x : Entry) : x ∈ here ks byPath' l ↔ x ∈ here ks byPath l := by
  rw [mem_here_added h]
  simp [hl]

theorem here_added_eq_nil (h : Added e byPath byPath')
    (hl : ¬ CountsOn ks e l) : here ks byPath' l = [] ↔ here ks byPath l = [] := by
  simp only [eq_nil_iff_forall_not_mem, here_added_of_not_counts h hl]

theorem here_added_ne_nil (h : Added e byPath byPath')
    (hl : CountsOn ks e l) : here ks byPath' l ≠ [] :=
  ne_nil_of_mem ((mem_here_added h l e).mpr (.inr ⟨rfl, hl⟩))

variable {pre : List (String × Bool)}

theorem firstHit_added (h : Added e byPath byPath')
    (hpre : ∀ m ∈ pre, here ks byPath m = [] ∧ ¬ CountsOn ks e m)
    (hl : CountsOn ks e l) :
    firstHit (here ks byPath') (pre ++ l :: post) = here ks byPath' l := by
  have hnil : firstHit (here ks byPath') pre = [] :=
    firstHit_eq_nil.mpr fun m hm => (here_added_eq_nil h (hpre m hm).2).mpr (hpre m hm).1
  rw [firstHit_append, if_pos hnil, firstHit_cons_of_ne_nil _ (here_added_ne_nil h hl)]

theorem firstHit_before
    (hpre : ∀ m ∈ pre, here ks byPath m = [] ∧ ¬ CountsOn ks e m) :
    firstHit (here ks byPath) (pre ++ l :: post) = firstHit (here ks byPath) (l :: post) := by
  rw [firstHit_append, if_pos (firstHit_eq_nil.mpr fun m hm => (hpre m hm).1)]

theorem firstHit_added_cases (h : Added e byPath byPath') (ls : List (String × Bool)) :
    (∃ pre l post, ls = pre ++ l :: post ∧
        (∀ m ∈ pre, here ks byPath m = [] ∧ ¬ CountsOn ks e m) ∧ CountsOn ks e l) ∨
      ∀ x, x ∈ firstHit (here ks byPath') ls ↔ x ∈ firstHit (here ks byPath) ls := by
  induction ls with
  | nil => exact .inr fun x => Iff.rfl
  | cons l ls ih =>
    by_cases hl : CountsOn ks e l
    · exact .inl ⟨[], l, ls, rfl, by simp, hl⟩
    by_cases hf : here ks byPath l = []
    · have hf' := (here_added_eq_nil h hl).mpr hf
      rcases ih with ⟨pre, m, post, rfl, hpre, hm⟩ | hsame
      · refine .inl ⟨l :: pre, m, post, rfl, fun x hx => ?_, hm⟩
        rcases mem_cons.mp hx with rfl | hx
        · exact ⟨hf, hl⟩
        · exact hpre x hx
      · refine .inr fun x => ?_
        rw [firstHit_cons_of_eq_nil _ hf', firstHit_cons_of_eq_nil _ hf]
        exact hsame x
    · have hf' : here ks byPath' l ≠ [] := fun he => hf ((here_added_eq_nil h hl).mp he)
      refine .inr fun x => ?_
      rw [firstHit_cons_of_ne_nil _ hf', firstHit_cons_of_ne_nil _ hf]
      exact here_added_of_not_counts h hl x

theorem preferred_added_of_own (h : Added e byPath byPath') {x : Entry}
    (hx : x ∈ here ks byPath l) (hox : Own ks x) (hoe : ¬ Own ks e) (y : Entry) :
    Preferred ks (here ks byPath' l) y ↔ Preferred ks (here ks byPath l) y := by
  have hx' : x ∈ here ks byPath' l := (mem_here_added h l x).mpr (.inl hx)
  constructor
  · rintro ⟨hy, hoy | hno⟩
    · rcases (mem_here_added h l y).mp hy with hy | ⟨rfl, -⟩
      · exact ⟨hy, .inl hoy⟩
      · exact absurd hoy hoe
    · exact absurd hox (hno x hx')
  · rintro ⟨hy, hoy | hno⟩
    · exact ⟨(mem_here_added h l y).mpr (.inl hy), .inl hoy⟩
    · exact absurd hox (hno x hx)

theorem preferred_of_added (h : Added e byPath byPath') {y : Entry}
    (hy : y ∈ here ks byPath l) (hp : Preferred ks (here ks byPath' l) y) :
    Preferred ks (here ks byPath l) y := by
  rcases hp.2 with ho | hno
  · exact ⟨hy, .inl ho⟩
  · exact ⟨hy, .inr fun x hx => hno x ((mem_here_added h l x).mpr (.inl hx))⟩

theorem preferred_new (h : Added e byPath byPath') (hl : CountsOn ks e l)
    (hown : ∀ x ∈ here ks byPath l, Own ks x → Own ks e) :
    Preferred ks (here ks byPath' l) e := by
  refine ⟨(mem_here_added h l e).mpr (.inr ⟨rfl, hl⟩), ?_⟩
  by_cases hoe : Own ks e
  · exact .inl hoe
  refine .inr fun x hx hox => ?_
  rcases (mem_here_added h l x).mp hx with hx | ⟨rfl, -⟩
  · exact hoe (hown x hx hox)
  · exact hoe hox

variable {owned : Bool} {q : Privilege} {line : List String}

theorem mem_before
    (hline : levels line = pre ++ l :: post)
    (hpre : ∀ m ∈ pre, here ks byPath m = [] ∧ ¬ CountsOn ks e m)
    (hne : here ks byPath l ≠ []) :
    q ∈ privilegesOf owned (deciding ks byPath line) ↔
      q ∈ privilegesOf owned (preferOwn ks (here ks byPath l)) := by
  rw [deciding, hline, firstHit_before hpre, firstHit_cons_of_ne_nil _ hne]

theorem mem_after
    (h : Added e byPath byPath') (hline : levels line = pre ++ l :: post)
    (hpre : ∀ m ∈ pre, here ks byPath m = [] ∧ ¬ CountsOn ks e m) (hl : CountsOn ks e l) :
    q ∈ privilegesOf owned (deciding ks byPath' line) ↔
      q ∈ privilegesOf owned (preferOwn ks (here ks byPath' l)) := by
  rw [deciding, hline, firstHit_added h hpre hl]

theorem not_mem_of_takes (h : Added e byPath byPath') (ht : Takes ks e byPath owned q line) :
    q ∉ privilegesOf owned (deciding ks byPath' line) := by
  obtain ⟨pre, l, post, hline, hpre, hl, hown, hrole⟩ := ht
  rw [mem_after h hline hpre hl, mem_privilegesOf_preferOwn]
  rintro ⟨hall, y, hy, hg⟩
  rcases hrole with hrole | ⟨hgive, halone⟩
  · exact hall e (preferred_new h hl hown) hrole
  -- Only the new entry decides, and it does not have the privilege.
  rcases (mem_here_added h l y).mp hy.1 with hyl | ⟨rfl, -⟩
  · obtain ⟨hoy, hoe⟩ := halone y hyl
    rcases hy.2 with ho | hno
    · exact hoy ho
    · exact hno e ((mem_here_added h l e).mpr (.inr ⟨rfl, hl⟩)) hoe
  · exact hgive hg

theorem takes_of_not_mem (h : Added e byPath byPath')
    (hq : q ∈ privilegesOf owned (deciding ks byPath line))
    (hq' : q ∉ privilegesOf owned (deciding ks byPath' line)) :
    Takes ks e byPath owned q line := by
  rcases firstHit_added_cases h (levels line) with ⟨pre, l, post, hline, hpre, hl⟩ | hsame
  swap
  · exact absurd ((mem_privilegesOf_congr hsame).mpr hq) hq'
  rw [mem_after h hline hpre hl, mem_privilegesOf_preferOwn] at hq'
  -- The older entries of the level gave the privilege, if there were any.
  have hbefore : here ks byPath l ≠ [] →
      (∀ y, Preferred ks (here ks byPath l) y → y.role ≠ .noAccess) ∧
        ∃ y, Preferred ks (here ks byPath l) y ∧ gives owned q y := by
    intro hne
    rw [mem_before hline hpre hne, mem_privilegesOf_preferOwn] at hq
    exact hq
  have hown : ∀ x ∈ here ks byPath l, Own ks x → Own ks e := by
    intro x hx hox
    by_contra hoe
    have hsame := preferred_added_of_own h hx hox hoe
    obtain ⟨hall, y, hy, hg⟩ := hbefore (ne_nil_of_mem hx)
    exact hq' ⟨fun z hz => hall z ((hsame z).mp hz), y, (hsame y).mpr hy, hg⟩
  refine ⟨pre, l, post, hline, hpre, hl, hown, ?_⟩
  by_cases hrole : e.role = .noAccess
  · exact .inl hrole
  have hall : ∀ z, Preferred ks (here ks byPath' l) z → z.role ≠ .noAccess := by
    intro z hz
    rcases (mem_here_added h l z).mp hz.1 with hzl | ⟨rfl, -⟩
    · exact (hbefore (ne_nil_of_mem hzl)).1 z (preferred_of_added h hzl hz)
    · exact hrole
  refine .inr ⟨fun hg => hq' ⟨hall, e, preferred_new h hl hown, hg⟩, fun x hx => ?_⟩
  obtain ⟨-, y, hy, hg⟩ := hbefore (ne_nil_of_mem hx)
  -- The entry that gave the privilege no longer decides: the new one is an own entry.
  have hny : ¬ Preferred ks (here ks byPath' l) y := fun hp => hq' ⟨hall, y, hp, hg⟩
  have hy' : y ∈ here ks byPath' l := (mem_here_added h l y).mpr (.inl hy.1)
  have hoy : ¬ Own ks y := fun ho => hny ⟨hy', .inl ho⟩
  have hno : ∀ z ∈ here ks byPath l, ¬ Own ks z := by
    rcases hy.2 with ho | hno
    · exact absurd ho hoy
    · exact hno
  refine ⟨hno x hx, ?_⟩
  by_contra hoe
  refine hny ⟨hy', .inr fun z hz => ?_⟩
  rcases (mem_here_added h l z).mp hz with hz | ⟨rfl, -⟩
  · exact hno z hz
  · exact hoe

theorem not_mem_of_not_gives (h : Added e byPath byPath')
    (hq : q ∉ privilegesOf owned (deciding ks byPath line))
    (he : e.role = .noAccess ∨ ¬ gives owned q e) :
    q ∉ privilegesOf owned (deciding ks byPath' line) := by
  rcases firstHit_added_cases h (levels line) with ⟨pre, l, post, hline, hpre, hl⟩ | hsame
  swap
  · exact fun hq' => hq ((mem_privilegesOf_congr hsame).mp hq')
  rw [mem_after h hline hpre hl, mem_privilegesOf_preferOwn]
  rintro ⟨hall, y, hy, hg⟩
  have hyl : y ∈ here ks byPath l := by
    rcases (mem_here_added h l y).mp hy.1 with hyl | ⟨rfl, -⟩
    · exact hyl
    · rcases he with hrole | hgive
      · exact absurd hrole (hall y hy)
      · exact absurd hg hgive
  apply hq
  rw [mem_before hline hpre (ne_nil_of_mem hyl), mem_privilegesOf_preferOwn]
  refine ⟨fun z hz => ?_, y, preferred_of_added h hyl hy, hg⟩
  -- What decided before still decides, beside the entry that gives the privilege.
  have hz' : z ∈ here ks byPath' l := (mem_here_added h l z).mpr (.inl hz.1)
  rcases hz.2 with hoz | hnoz
  · exact hall z ⟨hz', .inl hoz⟩
  rcases hy.2 with hoy | hnoy
  · exact absurd hoy (hnoz y hyl)
  · exact hall z ⟨hz', .inr hnoy⟩

end Add

/-! ### A removed entry -/

section Remove

variable (ks : List Subject) (e : Entry)

def decidingWithout (byPath : String → List Entry) (line : List String) : List Entry :=
  preferOwn ks (firstHit (fun l => (here ks byPath l).filter (· ≠ e)) (levels line))

/-- On a line, removing an entry leaves nothing that gives the privilege: what gives it now is the
entry alone, and where the entry decides alone, what decides in its absence does not give it. -/
def Drops (byPath : String → List Entry) (owned : Bool) (q : Privilege) (line : List String) :
    Prop :=
  (q ∈ privilegesOf owned (deciding ks byPath line) → e ∈ deciding ks byPath line ∧
      ∀ y ∈ deciding ks byPath line, y ≠ e → ¬ gives owned q y) ∧
    (e ∈ deciding ks byPath line → (∀ y ∈ deciding ks byPath line, y = e) →
      q ∉ privilegesOf owned (decidingWithout ks e byPath line))

variable {ks e} {byPath : String → List Entry} {owned : Bool} {q : Privilege} {line : List String}

theorem firstHit_without {f : String × Bool → List Entry} (hpre : ∀ m ∈ pre, f m = [])
    (hne : (f l).filter (· ≠ e) ≠ []) :
    firstHit (fun l => (f l).filter (· ≠ e)) (pre ++ l :: post) = (f l).filter (· ≠ e) := by
  have hnil : firstHit (fun l => (f l).filter (· ≠ e)) pre = [] :=
    firstHit_eq_nil.mpr fun m hm => by simp [hpre m hm]
  rw [firstHit_append, if_pos hnil]
  exact firstHit_cons_of_ne_nil (f := fun l => (f l).filter (· ≠ e)) post hne

theorem mem_decidingWithout
    (h : e ∉ deciding ks byPath line ∨ ∃ y ∈ deciding ks byPath line, y ≠ e) (x : Entry) :
    x ∈ decidingWithout ks e byPath line ↔ x ∈ deciding ks byPath line ∧ x ≠ e := by
  unfold decidingWithout deciding at *
  rcases firstHit_cases (here ks byPath) (levels line) with
    ⟨pre, l, post, hline, hpre, hne, hf⟩ | hall
  swap
  · have hnil : firstHit (here ks byPath) (levels line) = [] := firstHit_eq_nil.mpr hall
    have hnil' : firstHit (fun l => (here ks byPath l).filter (· ≠ e)) (levels line) = [] :=
      firstHit_eq_nil.mpr fun m hm => by simp [hall m hm]
    rw [hnil, hnil']
    simp [mem_preferOwn, Preferred]
  rw [hf] at h ⊢
  -- Some entry other than `e` decides; it is one that stays.
  have hstay : ∃ y, Preferred ks (here ks byPath l) y ∧ y ≠ e := by
    rcases h with h | ⟨y, hy, hye⟩
    · obtain ⟨y, hy⟩ := exists_mem_of_ne_nil _
        (fun hp => hne (preferOwn_eq_nil.mp hp) : preferOwn ks (here ks byPath l) ≠ [])
      exact ⟨y, mem_preferOwn.mp hy, fun hye => h (hye ▸ hy)⟩
    · exact ⟨y, mem_preferOwn.mp hy, hye⟩
  obtain ⟨y, hy, hye⟩ := hstay
  have hmem : y ∈ (here ks byPath l).filter (· ≠ e) :=
    mem_filter.mpr ⟨hy.1, decide_eq_true hye⟩
  rw [hline, firstHit_without hpre (ne_nil_of_mem hmem), mem_preferOwn, mem_preferOwn]
  have hsub : ∀ z, z ∈ (here ks byPath l).filter (· ≠ e) ↔ z ∈ here ks byPath l ∧ z ≠ e := by
    intro z
    rw [mem_filter, decide_eq_true_eq]
  constructor
  · rintro ⟨hx, hox | hno⟩
    · exact ⟨⟨((hsub x).mp hx).1, .inl hox⟩, ((hsub x).mp hx).2⟩
    · -- No own entry stays, so `y` is none and decided because there was none before.
      have hoy : ¬ Own ks y := hno y hmem
      rcases hy.2 with ho | hall
      · exact absurd ho hoy
      · exact ⟨⟨((hsub x).mp hx).1, .inr hall⟩, ((hsub x).mp hx).2⟩
  · rintro ⟨⟨hx, hox | hno⟩, hxe⟩
    · exact ⟨(hsub x).mpr ⟨hx, hxe⟩, .inl hox⟩
    · exact ⟨(hsub x).mpr ⟨hx, hxe⟩, .inr fun z hz => hno z ((hsub z).mp hz).1⟩

theorem mem_privilegesOf_removed {byPath' : String → List Entry}
    (h : ∀ p x, x ∈ byPath' p ↔ x ∈ byPath p ∧ x ≠ e) :
    q ∈ privilegesOf owned (deciding ks byPath' line) ↔
      q ∈ privilegesOf owned (decidingWithout ks e byPath line) := by
  refine mem_privilegesOf_congr fun x => ?_
  refine mem_firstHit_congr (levels line) (fun l _ y => ?_) x
  rw [mem_filter, mem_here, mem_here, h, decide_eq_true_eq]
  constructor
  · rintro ⟨⟨hy, hye⟩, hk⟩
    exact ⟨⟨hy, hk⟩, hye⟩
  · rintro ⟨⟨hy, hk⟩, hye⟩
    exact ⟨⟨hy, hye⟩, hk⟩

theorem not_mem_without_of_drops (hrole : e.role ≠ .noAccess)
    (hd : Drops ks e byPath owned q line) :
    q ∉ privilegesOf owned (decidingWithout ks e byPath line) := by
  obtain ⟨hthrough, halone⟩ := hd
  by_cases he : e ∈ deciding ks byPath line
  swap
  · -- Nothing changes, and the line did not give the privilege: it would have been through `e`.
    intro hq
    rw [mem_privilegesOf] at hq
    simp only [mem_decidingWithout (.inl he)] at hq
    obtain ⟨hall, y, hy, hg⟩ := hq
    refine he (hthrough (mem_privilegesOf.mpr ⟨fun z hz => ?_, y, hy.1, hg⟩)).1
    exact hall z ⟨hz, fun hze => he (hze ▸ hz)⟩
  by_cases hother : ∃ y ∈ deciding ks byPath line, y ≠ e
  swap
  · push Not at hother
    exact halone he hother
  intro hq
  rw [mem_privilegesOf] at hq
  simp only [mem_decidingWithout (.inr hother)] at hq
  obtain ⟨hall, y, hy, hg⟩ := hq
  refine (hthrough (mem_privilegesOf.mpr ⟨fun z hz => ?_, y, hy.1, hg⟩)).2 y hy.1 hy.2 hg
  by_cases hze : z = e
  · rw [hze]
    exact hrole
  · exact hall z ⟨hz, hze⟩

theorem drops_of_not_mem_without
    (hq : q ∉ privilegesOf owned (decidingWithout ks e byPath line)) :
    Drops ks e byPath owned q line := by
  refine ⟨fun hgives => ?_, fun _ _ => hq⟩
  rw [mem_privilegesOf] at hgives
  obtain ⟨hall, y, hy, hg⟩ := hgives
  have hstays : ∀ z, z ∈ deciding ks byPath line → z ≠ e → ¬ gives owned q z := by
    intro z hz hze hgz
    apply hq
    rw [mem_privilegesOf]
    simp only [mem_decidingWithout (.inr ⟨z, hz, hze⟩)]
    exact ⟨fun w hw => hall w hw.1, z, ⟨hz, hze⟩, hgz⟩
  refine ⟨?_, hstays⟩
  by_contra he
  exact hstays y hy (fun hye => he (hye ▸ hy)) hg

end Remove

/-! ### Objects -/

def lines (s : Snapshot) (path : String) (p : AclPath) : List (List String) :=
  chain s.tenantOf p :: match p with
    | .inst _ _ _ => (s.locatedIn path).map fun g => [path, g]
    | _ => []

variable {s : Snapshot} {path : String}

theorem lines_of_not_inst {p : AclPath} (h : ∀ c r i, p ≠ .inst c r i) :
    lines s path p = [chain s.tenantOf p] := by
  cases p <;> simp_all [lines]

theorem exists_line_of_own {ks : List Subject} {path c r i : String}
    (hp : parsePath path = some (.inst c r i)) (hown : deciding ks s.byPath [path] ≠ [])
    (P : List Entry → Prop) : (∃ line ∈ lines s path (.inst c r i), P (deciding ks s.byPath line)) ↔
      P (deciding ks s.byPath [path]) := by
  have hpath : formatPath (.inst c r i) = path := (formatPath_of_parsePath hp).1
  have hchain : chain s.tenantOf (.inst c r i) = path :: (chain s.tenantOf (.inst c r i)).tail := by
    rw [chain_inst, hpath, tail_cons]
  constructor
  · rintro ⟨line, hline, hP⟩
    rcases mem_cons.mp hline with rfl | hline
    · rwa [hchain, deciding_of_head hown] at hP
    · obtain ⟨g, -, rfl⟩ := List.mem_map.mp hline
      rwa [deciding_of_head hown] at hP
  · intro hP
    refine ⟨_, mem_cons_self, ?_⟩
    rwa [hchain, deciding_of_head hown]

theorem mem_privileges {t : Subject} {q : Privilege} :
    q ∈ s.privileges t path ↔ t ∉ s.disabled ∧ ∃ p, parsePath path = some p ∧
      ∃ line ∈ lines s path p,
        q ∈ privilegesOf (s.owns none t path) (deciding (s.keysOf t) s.byPath line) := by
  by_cases hs : t ∈ s.disabled
  · simp [Snapshot.privileges, decide_of_disabled hs, hs]
  cases hp : parsePath path with
  | none => simp [Snapshot.privileges, decide_of_not_parse hp]
  | some p =>
    simp only [hs, not_false_eq_true, Option.some.injEq, exists_eq_left', true_and]
    by_cases hinst : ∃ c r i, p = .inst c r i
    · obtain ⟨c, r, i, rfl⟩ := hinst
      rw [mem_privileges_inst hs hp]
      split_ifs with hown
      · exact (exists_line_of_own hp hown fun es => q ∈ privilegesOf (s.owns none t path) es).symm
      · simp only [lines, mem_cons, List.mem_map, exists_eq_or_imp, exists_exists_and_eq_and]
    · push Not at hinst
      rw [Snapshot.privileges, decide_eq_resolve hs hp (.inl hinst), resolve_eq,
        lines_of_not_inst hinst]
      simp

theorem mem_decidedBy {t : Subject} {e : Entry} :
    e ∈ (s.decide t path none).decidedBy ↔ t ∉ s.disabled ∧ ∃ p, parsePath path = some p ∧
      ∃ line ∈ lines s path p, e ∈ deciding (s.keysOf t) s.byPath line := by
  by_cases hs : t ∈ s.disabled
  · simp [decide_of_disabled hs, hs]
  cases hp : parsePath path with
  | none => simp [decide_of_not_parse hp]
  | some p =>
    simp only [hs, not_false_eq_true, Option.some.injEq, exists_eq_left', true_and]
    by_cases hinst : ∃ c r i, p = .inst c r i
    · obtain ⟨c, r, i, rfl⟩ := hinst
      by_cases hown : deciding (s.keysOf t) s.byPath [path] = []
      · simp only [lines, mem_cons, List.mem_map, exists_eq_or_imp, exists_exists_and_eq_and]
        exact mem_decidedBy_inst hs hp hown e
      · rw [decidedBy_of_own hs hp hown]
        exact (exists_line_of_own hp hown fun es => e ∈ es).symm
    · push Not at hinst
      rw [decide_eq_resolve hs hp (.inl hinst), resolve_eq, lines_of_not_inst hinst]
      simp

theorem exists_decidedBy_of_mem_privileges {t : Subject} {q : Privilege}
    (h : q ∈ s.privileges t path) :
    ∃ e ∈ (s.decide t path none).decidedBy, gives (s.owns none t path) q e := by
  obtain ⟨hs, p, hp, line, hline, hq⟩ := mem_privileges.mp h
  obtain ⟨-, e, he, hgives⟩ := mem_privilegesOf.mp hq
  exact ⟨e, mem_decidedBy.mpr ⟨hs, p, hp, line, hline, he⟩, hgives⟩

structure SameFacts (s s' : Snapshot) : Prop where
  disabled : s'.disabled = s.disabled
  tenantOf : s'.tenantOf = s.tenantOf
  owners : s'.owners = s.owners
  groupsOf : s'.groupsOf = s.groupsOf
  locatedIn : s'.locatedIn = s.locatedIn

section Objects

variable {s s' : Snapshot} {t : Subject} {path : String} {q : Privilege} {e : Entry}

theorem mem_privileges_same (h : SameFacts s s') :
    q ∈ s'.privileges t path ↔ t ∉ s.disabled ∧ ∃ p, parsePath path = some p ∧
      ∃ line ∈ lines s path p,
        q ∈ privilegesOf (s.owns none t path) (deciding (s.keysOf t) s'.byPath line) := by
  have hlines : ∀ p, lines s' path p = lines s path p := by
    intro p
    simp only [lines, h.tenantOf, h.locatedIn]
  have howns : s'.owns none t path = s.owns none t path := by
    rw [Snapshot.owns, Snapshot.owns, h.owners]
  have hkeys : s'.keysOf t = s.keysOf t := by
    rw [Snapshot.keysOf, Snapshot.keysOf, h.groupsOf]
  rw [mem_privileges, h.disabled, howns, hkeys]
  simp only [hlines]

def TakesAt (s : Snapshot) (e : Entry) (t : Subject) (path : String) (q : Privilege) : Prop :=
  ∀ p, parsePath path = some p → ∀ line ∈ lines s path p,
    q ∈ privilegesOf (s.owns none t path) (deciding (s.keysOf t) s.byPath line) →
      Takes (s.keysOf t) e s.byPath (s.owns none t path) q line

def DropsAt (s : Snapshot) (e : Entry) (t : Subject) (path : String) (q : Privilege) : Prop :=
  ∀ p, parsePath path = some p → ∀ line ∈ lines s path p,
    Drops (s.keysOf t) e s.byPath (s.owns none t path) q line

theorem not_mem_privileges_added (h : SameFacts s s') (ha : Added e s.byPath s'.byPath)
    (hq : q ∈ s.privileges t path) : q ∉ s'.privileges t path ↔ TakesAt s e t path q := by
  obtain ⟨hs, p, hp, line, hline, hgives⟩ := mem_privileges.mp hq
  rw [mem_privileges_same h]
  constructor
  · intro hno p' hp' line' hline' hgives'
    exact takes_of_not_mem ha hgives' fun hq' => hno ⟨hs, p', hp', line', hline', hq'⟩
  · rintro ht ⟨-, p', hp', line', hline', hq'⟩
    have htakes := ht p hp line hline hgives
    by_cases hgives' : q ∈ privilegesOf (s.owns none t path) (deciding (s.keysOf t) s.byPath line')
    · exact not_mem_of_takes ha (ht p' hp' line' hline' hgives') hq'
    · -- The entry has no such privilege, since it takes it on the line that gives it.
      have he : e.role = .noAccess ∨ ¬ gives (s.owns none t path) q e := by
        obtain ⟨_, _, _, _, _, _, _, hrole | hgive⟩ := htakes
        · exact .inl hrole
        · exact .inr hgive.1
      exact not_mem_of_not_gives ha hgives' he hq'

theorem not_mem_privileges_removed (h : SameFacts s s')
    (hr : ∀ p x, x ∈ s'.byPath p ↔ x ∈ s.byPath p ∧ x ≠ e) (hq : q ∈ s.privileges t path) :
    q ∉ s'.privileges t path ↔ DropsAt s e t path q := by
  obtain ⟨hs, p, hp, line, hline, hgives⟩ := mem_privileges.mp hq
  rw [mem_privileges_same h]
  simp only [mem_privilegesOf_removed hr]
  constructor
  · intro hno p' hp' line' hline'
    exact drops_of_not_mem_without fun hq' => hno ⟨hs, p', hp', line', hline', hq'⟩
  · rintro hd ⟨-, p', hp', line', hline', hq'⟩
    have hrole : e.role ≠ .noAccess :=
      (mem_privilegesOf.mp hgives).1 e ((hd p hp line hline).1 hgives).1
    exact not_mem_without_of_drops hrole (hd p' hp' line' hline') hq'

end Objects

end IncusCloud.Acl
