import IncusCloud.Kubernetes.Activity
import Mathlib.Algebra.GroupWithZero.Nat

/-!
# What the timeline of a cluster keeps

`Timeline` says what a timeline of the newest entries is. The timeline that is made has each line
at the place of its first occurrence (`merges_foldl`), and is cut there: it is one exactly where no
line that is cut goes on after one that is kept has ended, and no line that is kept shares its key
with another (`timeline_iff`).
-/

namespace IncusCloud.Kubernetes

open Lib List

variable {τ : Type*}

/-! ### Lines -/

namespace ActivityEntry

variable {e : ActivityEntry τ} {k : String} {st : Merged τ} {limit : ℕ}

abbrev IsEvent (e : ActivityEntry τ) : Prop := e.source = "event"

def line (e : ActivityEntry τ) : String × Option String × ActivityLevel × String :=
  (e.source, e.object, e.level, e.message)

def foldKey (e : ActivityEntry τ) : Option String := if e.IsEvent then none else some e.lineKey

theorem foldKey_eq_some : e.foldKey = some k ↔ ¬ e.IsEvent ∧ e.lineKey = k := by
  unfold foldKey
  split_ifs with h <;> simp [h]

theorem foldKey_eq_none : e.foldKey = none ↔ e.IsEvent := by
  unfold foldKey
  split_ifs with h
  · exact iff_of_true rfl h
  · simp [h]

variable {f : ActivityEntry τ}

theorem lineKey_of_line (h : e.line = f.line) : e.lineKey = f.lineKey := by
  simp only [line, Prod.mk.injEq] at h
  rw [lineKey, lineKey, h.1, h.2.1, h.2.2.1, h.2.2.2]

theorem isEvent_of_line (h : e.line = f.line) : e.IsEvent ↔ f.IsEvent := by
  have hsource : e.source = f.source := congrArg Prod.fst h
  rw [IsEvent, IsEvent, hsource]

end ActivityEntry

/-! ### What is folded -/

variable (es : List (ActivityEntry τ))

/-- The entries `es`, of which `f` is the first, in one. -/
def gather (f : ActivityEntry τ) : ActivityEntry τ :=
  { f with
    count := (es.map (·.count)).sum
    lastTime := if 2 ≤ es.length then es.getLast?.map (·.time) else f.lastTime }

def folded (l : List (ActivityEntry τ)) (f : ActivityEntry τ) : ActivityEntry τ :=
  match f.foldKey with
  | none => f
  | some k => gather (l.filter fun e => e.foldKey = some k) f

structure Merges (l : List (ActivityEntry τ)) (st : Merged τ) : Prop where
  out : st.out = (firsts ActivityEntry.foldKey l).map (folded l)
  seen : ∀ k i, st.seen.get k = some i ↔ ∃ f, (firsts ActivityEntry.foldKey l)[i]? = some f ∧
    f.foldKey = some k

variable {l : List (ActivityEntry τ)}

theorem folded_event (h : f.IsEvent) : folded l f = f := by
  rw [folded, ActivityEntry.foldKey_eq_none.mpr h]

theorem folded_concat_of_ne
    (h : ∀ k, f.foldKey = some k → e.foldKey ≠ some k) : folded (l ++ [e]) f = folded l f := by
  unfold folded
  cases hk : f.foldKey with
  | none => rfl
  | some k =>
    have hfilter : (l ++ [e]).filter (fun e => e.foldKey = some k) = l.filter fun e =>
      e.foldKey = some k := by
      rw [filter_append]
      simp [h k hk]
    simp only [hfilter]

theorem folded_concat (he : e.foldKey = some k)
    (hf : f.foldKey = some k) (hmem : f ∈ l) : folded (l ++ [e]) f = (folded l f).fold e := by
  have hfilter : (l ++ [e]).filter (fun e => e.foldKey = some k) =
      l.filter (fun e => e.foldKey = some k) ++ [e] := by
    rw [filter_append]
    simp [he]
  have hpos : 0 < (l.filter fun e => e.foldKey = some k).length := by
    apply length_pos_of_mem
    exact mem_filter.mpr ⟨hmem, by simpa using hf⟩
  have hlen : 2 ≤ (l.filter (fun e => e.foldKey = some k) ++ [e]).length := by
    rw [length_append, length_singleton]
    omega
  unfold folded ActivityEntry.fold gather
  rw [hf]
  simp only [hfilter, if_pos hlen]
  simp

theorem folded_concat_self (he : e.foldKey = some k)
    (hnew : ∀ f ∈ l, f.foldKey ≠ some k) : folded (l ++ [e]) e = e := by
  have hfilter : (l ++ [e]).filter (fun e => e.foldKey = some k) = [e] := by
    rw [filter_append, filter_eq_nil_iff.mpr (by simpa using hnew)]
    simp [he]
  unfold folded
  rw [he]
  simp [hfilter, gather]

theorem exists_concat_iff {α : Type*} {p : α → Prop} {l : List α} {a : α} (h : ¬ p a) {i : ℕ} :
    (∃ b, l[i]? = some b ∧ p b) ↔ ∃ b, (l ++ [a])[i]? = some b ∧ p b := by
  constructor
  · rintro ⟨b, hb, hp⟩
    exact ⟨b, by rw [List.getElem?_append_left (List.getElem?_eq_some_iff.mp hb).1, hb], hp⟩
  · rintro ⟨b, hb, hp⟩
    rw [List.getElem?_append] at hb
    split_ifs at hb with hi
    · exact ⟨b, hb, hp⟩
    · obtain rfl := mem_singleton.mp (mem_of_getElem? hb)
      exact absurd hp h

theorem merges_nil : Merges ([] : List (ActivityEntry τ)) ⟨[], []⟩ := by
  refine ⟨rfl, fun k i => ?_⟩
  constructor
  · intro h
    cases h
  · rintro ⟨f, hf, -⟩
    cases hf

theorem map_folded_concat (hself : folded (l ++ [e]) e = e)
    (hnew : ∀ f ∈ l, ∀ k, f.foldKey = some k → e.foldKey ≠ some k) :
    (firsts ActivityEntry.foldKey l).map (folded l) ++ [e] =
      (firsts ActivityEntry.foldKey l ++ [e]).map (folded (l ++ [e])) := by
  have hmap : (firsts ActivityEntry.foldKey l).map (folded l) =
      (firsts ActivityEntry.foldKey l).map (folded (l ++ [e])) := by
    apply map_congr_left
    intro f hf
    exact (folded_concat_of_ne (hnew f ((firsts_sublist l).subset hf))).symm
  rw [map_append, map_singleton, hself, hmap]

theorem Merges.addEvent (h : Merges l st)
    (he : e.IsEvent) : Merges (l ++ [e]) ⟨st.out ++ [e], st.seen⟩ := by
  have hnone := ActivityEntry.foldKey_eq_none.mpr he
  have hfirsts : firsts ActivityEntry.foldKey (l ++ [e]) = firsts ActivityEntry.foldKey l ++ [e] := by
    rw [firsts_concat, if_neg]
    simp [repeats, hnone]
  constructor
  · show st.out ++ [e] = _
    rw [hfirsts, h.out]
    exact map_folded_concat (folded_event he) fun f _ k _ => by simp [hnone]
  · intro k i
    rw [h.seen, hfirsts]
    exact exists_concat_iff (by simp [hnone])

theorem Merges.addRepeat (h : Merges l st) (hkey : e.foldKey = some k) {i : ℕ}
    (hseen : st.seen.get k = some i) :
    Merges (l ++ [e]) ⟨st.out.modify i fun first => first.fold e, st.seen⟩ := by
  obtain ⟨f, hf, hfk⟩ := (h.seen k i).mp hseen
  have hfirsts : firsts ActivityEntry.foldKey (l ++ [e]) = firsts ActivityEntry.foldKey l := by
    rw [firsts_concat, if_pos]
    exact repeats_iff.mpr ⟨k, hkey, f, mem_of_getElem? hf, hfk⟩
  refine ⟨?_, fun k' j => by rw [hfirsts]; exact h.seen k' j⟩
  show st.out.modify i _ = _
  rw [hfirsts]
  apply ext_getElem?
  intro j
  rw [List.getElem?_modify, h.out, List.getElem?_map, List.getElem?_map]
  cases hj : (firsts ActivityEntry.foldKey l)[j]? with
  | none => rfl
  | some g =>
    have hg := (firsts_sublist l).subset (mem_of_getElem? hj)
    -- the key tells which of them it is
    by_cases hgk : g.foldKey = some k
    · have hij : i = j := by
        have hsj := (h.seen k j).mpr ⟨g, hj, hgk⟩
        rw [hseen] at hsj
        exact Option.some.inj hsj
      simp [hij, folded_concat hkey hgk hg]
    · have hij : i ≠ j := by
        rintro rfl
        rw [hf, Option.some.injEq] at hj
        exact hgk (hj ▸ hfk)
      have hfold : folded (l ++ [e]) g = folded l g := by
        apply folded_concat_of_ne
        intro k' hk' hek
        rw [hkey] at hek
        exact hgk (hk'.trans hek.symm)
      simp [hij, hfold]

theorem Merges.addFirst (h : Merges l st) (hkey : e.foldKey = some k)
    (hseen : st.seen.get k = none) :
    Merges (l ++ [e]) ⟨st.out ++ [e], st.seen.set k st.out.length⟩ := by
  have hnew : ∀ f ∈ l, f.foldKey ≠ some k := by
    intro f hf hfk
    obtain ⟨g, hg, hgk⟩ := exists_first hf hfk
    obtain ⟨j, hj⟩ := List.getElem?_of_mem hg
    have hsome := (h.seen k j).mpr ⟨g, hj, hgk⟩
    rw [hseen] at hsome
    cases hsome
  have hfirsts : firsts ActivityEntry.foldKey (l ++ [e]) = firsts ActivityEntry.foldKey l ++ [e] := by
    rw [firsts_concat, if_neg]
    rw [repeats_iff]
    rintro ⟨k', hk', f, hf, hfk⟩
    rw [hkey, Option.some.injEq] at hk'
    exact hnew f ((firsts_sublist l).subset hf) (hk' ▸ hfk)
  constructor
  · show st.out ++ [e] = _
    rw [hfirsts, h.out]
    apply map_folded_concat (folded_concat_self hkey hnew)
    intro f hf k' hk' hek
    rw [hkey] at hek
    exact hnew f hf (hk'.trans hek.symm)
  · intro k' i
    have hlen : st.out.length = (firsts ActivityEntry.foldKey l).length := by rw [h.out, length_map]
    show (st.seen.set k st.out.length).get k' = some i ↔ _
    rw [OrdMap.get_set, hfirsts]
    split_ifs with hk
    · rw [hlen, Option.some.injEq, hk]
      constructor
      · rintro rfl
        exact ⟨e, by simp, hkey⟩
      · rintro ⟨f, hf, hfk⟩
        rw [List.getElem?_append] at hf
        split_ifs at hf with hi
        · exact absurd hfk (hnew f ((firsts_sublist l).subset (mem_of_getElem? hf)))
        · have hone := (List.getElem?_eq_some_iff.mp hf).1
          rw [length_singleton] at hone
          omega
    · rw [h.seen]
      apply exists_concat_iff
      rw [hkey, Option.some.injEq]
      exact fun heq => hk heq.symm

theorem Merges.add (h : Merges l st) (e : ActivityEntry τ) : Merges (l ++ [e]) (st.add e) := by
  unfold Merged.add
  by_cases hevent : e.IsEvent
  · rw [if_pos hevent]
    exact h.addEvent hevent
  · rw [if_neg hevent]
    have hkey : e.foldKey = some e.lineKey := ActivityEntry.foldKey_eq_some.mpr ⟨hevent, rfl⟩
    cases hseen : st.seen.get e.lineKey with
    | some i => exact h.addRepeat hkey hseen
    | none => exact h.addFirst hkey hseen

theorem merges_foldl (l : List (ActivityEntry τ)) : Merges l (l.foldl Merged.add ⟨[], []⟩) := by
  induction l using List.reverseRecOn with
  | nil => exact merges_nil
  | append_singleton l e ih =>
    rw [foldl_append]
    exact ih.add e

/-! ### A timeline of the newest entries -/

/-- The entries of the line of `x`; an event has none but itself. -/
def occurrences (x : ActivityEntry τ) : List (ActivityEntry τ) :=
  es.filter fun e => ¬ e.IsEvent ∧ e.line = x.line

@[simp]
theorem folded_time (l : List (ActivityEntry τ)) (f : ActivityEntry τ) : (folded l f).time = f.time := by
  unfold folded
  split <;> rfl

@[simp]
theorem folded_line (l : List (ActivityEntry τ)) (f : ActivityEntry τ) : (folded l f).line = f.line := by
  unfold folded
  split <;> rfl

theorem folded_isEvent (l : List (ActivityEntry τ)) (f : ActivityEntry τ) : (folded l f).IsEvent ↔
    f.IsEvent :=
  ActivityEntry.isEvent_of_line (folded_line l f)

theorem sum_count_lt {es : List (ActivityEntry τ)} {p q : ActivityEntry τ → Bool}
    (hpq : ∀ e ∈ es, p e → q e) (he : e ∈ es) (hp : ¬ p e) (hq : q e) (hcount : 1 ≤ e.count) :
    ((es.filter p).map (·.count)).sum < ((es.filter q).map (·.count)).sum := by
  have hperm := (filter_append_perm p (es.filter q)).map (·.count)
  have hsame : (es.filter q).filter p = es.filter p := by
    rw [filter_filter]
    apply filter_congr
    intro a ha
    rw [Bool.eq_iff_iff, Bool.and_eq_true]
    exact ⟨fun h => h.1, fun h => ⟨h, hpq a ha h⟩⟩
  have hmem : e.count ∈ ((es.filter q).filter fun a => !p a).map (·.count) := by
    apply mem_map_of_mem
    simp [he, hp, hq]
  obtain ⟨s, t, hst⟩ := append_of_mem hmem
  have hsum := hperm.sum_nat
  rw [map_append, hsame, hst, sum_append, sum_append, sum_cons] at hsum
  omega

theorem filter_isEvent_folded (l fs : List (ActivityEntry τ)) :
    ((fs.map (folded l)).filter fun x => x.IsEvent) = fs.filter fun x => x.IsEvent := by
  rw [filter_map]
  have hfilter : fs.filter ((fun x : ActivityEntry τ => decide x.IsEvent) ∘ folded l) =
    fs.filter fun x => x.IsEvent := by
    apply filter_congr
    intro f _
    exact decide_eq_decide.mpr (folded_isEvent l f)
  rw [hfilter]
  conv_rhs => rw [← map_id (fs.filter _)]
  apply map_congr_left
  intro f hf
  exact folded_event (of_decide_eq_true (mem_filter.mp hf).2)

variable [LinearOrder τ]

structure Folds (es : List (ActivityEntry τ)) (x : ActivityEntry τ) : Prop where
  count : x.count = ((occurrences es x).map (·.count)).sum
  earliest : (∃ e ∈ occurrences es x, e.time = x.time) ∧ ∀ e ∈ occurrences es x, x.time ≤ e.time
  latest : 2 ≤ (occurrences es x).length → ∃ t, x.lastTime = some t ∧
    (∃ e ∈ occurrences es x, e.time = t) ∧ ∀ e ∈ occurrences es x, e.time ≤ t
  single : ∀ e, occurrences es x = [e] → x = e

def LastsTo (x : ActivityEntry τ) (t : τ) : Prop :=
  t ≤ x.time ∨ ∃ e ∈ occurrences es x, t ≤ e.time

/-- `out` has the newest of the entries `es`, at most `limit`. -/
structure Timeline (es : List (ActivityEntry τ)) (limit : ℕ) (out : List (ActivityEntry τ)) : Prop where
  atMost : out.length ≤ limit
  inOrder : out.Pairwise fun a b => a.time ≤ b.time
  once : ((out.filter fun x => ¬ x.IsEvent).map (·.line)).Nodup
  folds : ∀ x ∈ out, ¬ x.IsEvent → Folds es x
  events : ∃ cut, (es.filter fun e => e.IsEvent).Perm (cut ++ out.filter fun x => x.IsEvent) ∧
    ∀ e ∈ cut, ∀ y ∈ out, LastsTo es y e.time
  lines : ∀ e ∈ es, ¬ e.IsEvent → (∀ x ∈ out, x.line ≠ e.line) → ∀ y ∈ out, LastsTo es y e.time

variable (sets : List (List (ActivityEntry τ)))

def cutFirsts (limit : ℕ) : List (ActivityEntry τ) :=
  let fs := firsts ActivityEntry.foldKey (inOrder sets)
  fs.take (fs.length - limit)

def keptFirsts (limit : ℕ) : List (ActivityEntry τ) :=
  let fs := firsts ActivityEntry.foldKey (inOrder sets)
  fs.drop (fs.length - limit)

def CutEnds (limit : ℕ) : Prop :=
  ∀ x ∈ cutFirsts sets limit, ∀ e ∈ sets.flatten, ¬ e.IsEvent → e.foldKey = x.foldKey →
    ∀ y ∈ keptFirsts sets limit, LastsTo sets.flatten y e.time

def KeptApart (limit : ℕ) : Prop :=
  ∀ x ∈ keptFirsts sets limit, ∀ e ∈ sets.flatten, ¬ e.IsEvent → e.foldKey = x.foldKey → e.line = x.line

theorem inOrder_perm : (inOrder sets).Perm sets.flatten :=
  mergeSort_perm _ _

theorem inOrder_pairwise : (inOrder sets).Pairwise fun a b => a.time ≤ b.time := by
  apply List.Pairwise.imp (fun h => of_decide_eq_true h)
  apply pairwise_mergeSort
  · intro a b c hab hbc
    simpa using le_trans (of_decide_eq_true hab) (of_decide_eq_true hbc)
  · intro a b
    simpa using le_total a.time b.time

theorem mergeActivity_eq (hlimit : 1 ≤ limit) :
    mergeActivity sets limit = (keptFirsts sets limit).map (folded (inOrder sets)) := by
  have hne : limit ≠ 0 := by omega
  rw [mergeActivity, (merges_foldl (inOrder sets)).out, sliceLast, if_neg hne, length_map,
    keptFirsts, map_drop]

theorem lastsTo_folded {es l : List (ActivityEntry τ)} {t : τ} :
    LastsTo es (folded l f) t ↔ LastsTo es f t := by
  simp [LastsTo, occurrences]

variable {x : ActivityEntry τ}

theorem Folds.perm {es es' : List (ActivityEntry τ)} (hperm : es.Perm es') (h : Folds es x) :
    Folds es' x := by
  have hocc : (occurrences es x).Perm (occurrences es' x) := hperm.filter _
  have hmem : ∀ e, e ∈ occurrences es' x ↔ e ∈ occurrences es x := fun e => hocc.mem_iff.symm
  constructor
  · rw [h.count]
    exact (hocc.map _).sum_nat
  · simpa only [hmem] using h.earliest
  · rw [← hocc.length_eq]
    simpa only [hmem] using h.latest
  · intro e he
    rw [he, perm_singleton] at hocc
    exact h.single e hocc

theorem le_getLast (hl : l.Pairwise fun a b => a.time ≤ b.time) {z : ActivityEntry τ}
    (hz : l.getLast? = some z) (he : e ∈ l) : e.time ≤ z.time := by
  obtain ⟨init, rfl⟩ := List.getLast?_eq_some_iff.mp hz
  rcases mem_append.mp he with he | he
  · exact (pairwise_append.mp hl).2.2 e he z mem_cons_self
  · rw [mem_singleton.mp he]

theorem folds_gather {es ks : List (ActivityEntry τ)} (hks : occurrences es x = ks)
    (hsorted : ks.Pairwise fun a b => a.time ≤ b.time) (hx : x ∈ ks) (hfirst : ∀ e ∈ ks, x.time ≤ e.time) :
    Folds es (gather ks x) := by
  have hocc : occurrences es (gather ks x) = ks := hks
  constructor
  · rw [hocc]
    rfl
  · rw [hocc]
    exact ⟨⟨x, hx, rfl⟩, hfirst⟩
  · rw [hocc]
    intro hlen
    obtain ⟨z, hz⟩ : ∃ z, ks.getLast? = some z := ⟨_, List.getLast?_eq_some_getLast (ne_nil_of_mem hx)⟩
    refine ⟨z.time, ?_, ⟨z, mem_of_getLast? hz, rfl⟩, fun e he => le_getLast hsorted hz he⟩
    show (if 2 ≤ ks.length then ks.getLast?.map (·.time) else x.lastTime) = some z.time
    rw [if_pos hlen, hz]
    rfl
  · intro e he
    rw [hocc] at he
    subst he
    rw [mem_singleton.mp hx]
    simp [gather]

theorem folds_folded (hl : l.Pairwise fun a b => a.time ≤ b.time)
    (hx : x ∈ firsts ActivityEntry.foldKey l) (hevent : ¬ x.IsEvent)
    (hapart : ∀ e ∈ l, ¬ e.IsEvent → e.foldKey = x.foldKey → e.line = x.line) : Folds l (folded l x) := by
  have hkey : x.foldKey = some x.lineKey := ActivityEntry.foldKey_eq_some.mpr ⟨hevent, rfl⟩
  have hocc : occurrences l x = l.filter fun e => e.foldKey = some x.lineKey := by
    apply filter_congr
    intro e he
    rw [decide_eq_decide, ActivityEntry.foldKey_eq_some]
    constructor
    · rintro ⟨hne, hline⟩
      exact ⟨hne, ActivityEntry.lineKey_of_line hline⟩
    · rintro ⟨hne, hk⟩
      exact ⟨hne, hapart e he hne (by rw [hkey]; exact ActivityEntry.foldKey_eq_some.mpr ⟨hne, hk⟩)⟩
  have hfolded : folded l x = gather (l.filter fun e => e.foldKey = some x.lineKey) x := by
    conv_lhs => unfold folded
    rw [hkey]
  rw [hfolded]
  apply folds_gather hocc (hl.sublist filter_sublist)
  · exact mem_filter.mpr ⟨(firsts_sublist l).subset hx, by simpa using hkey⟩
  · intro e he
    obtain ⟨hmem, hek⟩ := mem_filter.mp he
    have hle := first_le hl (fun a => le_refl a.time) hx hmem hkey (of_decide_eq_true hek)
    exact hle

theorem conditions_of_timeline {sets : List (List (ActivityEntry τ))}
    (hcount : ∀ e ∈ sets.flatten, ¬ e.IsEvent → 1 ≤ e.count)
    (h : Timeline sets.flatten limit ((keptFirsts sets limit).map (folded (inOrder sets)))) :
    KeptApart sets limit ∧ CutEnds sets limit := by
  have hmem : ∀ e, e ∈ inOrder sets ↔ e ∈ sets.flatten := fun e => (inOrder_perm sets).mem_iff
  have hsplit : cutFirsts sets limit ++ keptFirsts sets limit = firsts ActivityEntry.foldKey (inOrder sets) :=
    take_append_drop _ _
  have hkeys : (firsts ActivityEntry.foldKey (inOrder sets)).Pairwise fun a b =>
      ∀ k, a.foldKey = some k → b.foldKey ≠ some k := pairwise_firsts (inOrder sets)
  rw [← hsplit, pairwise_append] at hkeys
  constructor
  · intro x hx e he hevent hk
    by_contra hline
    have hxkey : x.foldKey = some e.lineKey :=
      hk.symm.trans (ActivityEntry.foldKey_eq_some.mpr ⟨hevent, rfl⟩)
    have hxevent : ¬ (folded (inOrder sets) x).IsEvent := by
      rw [folded_isEvent]
      exact (ActivityEntry.foldKey_eq_some.mp hxkey).1
    have hcounts := (h.folds _ (mem_map_of_mem hx) hxevent).count
    -- the entries of both lines are counted
    have hall : (folded (inOrder sets) x).count =
        (((inOrder sets).filter fun e' => e'.foldKey = some e.lineKey).map (·.count)).sum := by
      unfold folded
      rw [hxkey]
      rfl
    have hlt : ((occurrences sets.flatten (folded (inOrder sets) x)).map (·.count)).sum <
        ((sets.flatten.filter fun e' => e'.foldKey = some e.lineKey).map (·.count)).sum := by
      apply sum_count_lt _ he _ _ (hcount e he hevent)
      · intro e' _ hocc
        simp only [decide_eq_true_eq, folded_line] at hocc ⊢
        rw [← hxkey, ActivityEntry.foldKey_eq_some.mpr ⟨hocc.1, ActivityEntry.lineKey_of_line hocc.2⟩]
        exact (ActivityEntry.foldKey_eq_some.mpr ⟨(ActivityEntry.foldKey_eq_some.mp hxkey).1, rfl⟩).symm
      · simp only [decide_eq_true_eq, folded_line]
        exact fun hocc => hline hocc.2
      · simpa only [decide_eq_true_eq] using ActivityEntry.foldKey_eq_some.mpr ⟨hevent, rfl⟩
    have hsum := (((inOrder_perm sets).filter fun e' => e'.foldKey = some e.lineKey).map (·.count)).sum_nat
    omega
  · intro x hx e he hevent hk y hy
    have hlast := h.lines e he hevent ?_ (folded (inOrder sets) y) (mem_map_of_mem hy)
    · rwa [lastsTo_folded] at hlast
    · intro z hz hline
      obtain ⟨f, hf, rfl⟩ := List.mem_map.mp hz
      rw [folded_line] at hline
      have hekey : e.foldKey = some e.lineKey := ActivityEntry.foldKey_eq_some.mpr ⟨hevent, rfl⟩
      apply hkeys.2.2 x hx f hf e.lineKey (hk.symm.trans hekey)
      rw [ActivityEntry.foldKey_eq_some, ActivityEntry.isEvent_of_line hline]
      exact ⟨hevent, ActivityEntry.lineKey_of_line hline⟩

theorem timeline_of_conditions {sets : List (List (ActivityEntry τ))}
    (hapart : KeptApart sets limit) (hends : CutEnds sets limit) :
    Timeline sets.flatten limit ((keptFirsts sets limit).map (folded (inOrder sets))) := by
  have hmem : ∀ e, e ∈ inOrder sets ↔ e ∈ sets.flatten := fun e => (inOrder_perm sets).mem_iff
  have hsub : (keptFirsts sets limit).Sublist (firsts ActivityEntry.foldKey (inOrder sets)) :=
    drop_sublist _ _
  have hsplit : cutFirsts sets limit ++ keptFirsts sets limit = firsts ActivityEntry.foldKey (inOrder sets) :=
    take_append_drop _ _
  have hordered : (firsts ActivityEntry.foldKey (inOrder sets)).Pairwise fun a b => a.time ≤ b.time :=
    (inOrder_pairwise sets).sublist (firsts_sublist _)
  constructor
  · rw [length_map, keptFirsts, length_drop]
    omega
  · rw [pairwise_map]
    simpa only [folded_time] using hordered.sublist hsub
  · rw [filter_map, map_map, nodup_iff_pairwise_ne, pairwise_map, pairwise_filter]
    apply ((pairwise_firsts _).sublist hsub).imp
    intro a b hab ha _ hline
    rw [Function.comp_apply, Function.comp_apply, folded_line, folded_line] at hline
    have hevent : ¬ a.IsEvent := by simpa [folded_isEvent] using ha
    have hkey : b.foldKey = some a.lineKey := by
      rw [ActivityEntry.foldKey_eq_some, ← ActivityEntry.isEvent_of_line hline]
      exact ⟨hevent, (ActivityEntry.lineKey_of_line hline).symm⟩
    exact hab _ (ActivityEntry.foldKey_eq_some.mpr ⟨hevent, rfl⟩) hkey
  · intro y hy hevent
    obtain ⟨x, hx, rfl⟩ := List.mem_map.mp hy
    rw [folded_isEvent] at hevent
    apply (folds_folded (inOrder_pairwise sets) (hsub.subset hx) hevent ?_).perm (inOrder_perm sets)
    intro e he hne hk
    exact hapart x hx e ((hmem e).mp he) hne hk
  · refine ⟨(cutFirsts sets limit).filter fun e => e.IsEvent, ?_, ?_⟩
    · have hnone : ∀ l : List (ActivityEntry τ),
          l.filter (fun e => e.foldKey = none) = l.filter fun e => e.IsEvent := by
        intro l
        apply filter_congr
        intro e _
        rw [decide_eq_decide, ActivityEntry.foldKey_eq_none]
      have hfirsts : (firsts ActivityEntry.foldKey (inOrder sets)).filter (fun e => e.foldKey = none) =
          (inOrder sets).filter fun e => e.foldKey = none := filter_firsts_none (inOrder sets)
      rw [hnone, hnone, ← hsplit, filter_append] at hfirsts
      rw [filter_isEvent_folded, hfirsts]
      exact ((inOrder_perm sets).filter _).symm
    · intro e he y hy
      obtain ⟨f, hf, rfl⟩ := List.mem_map.mp hy
      rw [lastsTo_folded]
      rw [← hsplit, pairwise_append] at hordered
      exact .inl (hordered.2.2 e (mem_of_mem_filter he) f hf)
  · intro e he hevent hno y hy
    obtain ⟨f, hf, rfl⟩ := List.mem_map.mp hy
    rw [lastsTo_folded]
    have hkey : e.foldKey = some e.lineKey := ActivityEntry.foldKey_eq_some.mpr ⟨hevent, rfl⟩
    obtain ⟨x, hx, hxk⟩ := exists_first ((hmem e).mpr he) hkey
    rw [← hsplit, mem_append] at hx
    rcases hx with hx | hx
    · exact hends x hx e he hevent (hkey.trans hxk.symm) f hf
    · have hline := hapart x hx e he hevent (hkey.trans hxk.symm)
      refine absurd ?_ (hno _ (mem_map_of_mem hx))
      rw [folded_line, hline]

/-- The timeline that is made is one of the newest entries exactly where no line that is cut goes on
when an entry that is kept has ended, and no line that is kept has another's key. -/
theorem timeline_iff {sets : List (List (ActivityEntry τ))} {limit : ℕ} (hlimit : 1 ≤ limit)
    (hcount : ∀ e ∈ sets.flatten, ¬ e.IsEvent → 1 ≤ e.count) :
    Timeline sets.flatten limit (mergeActivity sets limit) ↔ KeptApart sets limit ∧ CutEnds sets limit := by
  rw [mergeActivity_eq sets hlimit]
  exact ⟨conditions_of_timeline hcount, fun h => timeline_of_conditions h.1 h.2⟩

def logLine (time message : String) : ActivityEntry String :=
    ⟨time, none, .info, "capn", some "Machine/m", message, 1⟩

def creating : ActivityEntry String := logLine "2026-09-23T20:00:01Z" "Creating load balancer"
def launched : ActivityEntry String := logLine "2026-09-23T20:00:02Z" "Launched"
def creatingAgain : ActivityEntry String := logLine "2026-09-23T20:09:01Z" "Creating load balancer"

theorem timeline_iff_launched :
    Timeline [[creating, launched]].flatten 1 (mergeActivity [[creating, launched]] 1) := by
  have horder : inOrder [[creating, launched]] = [creating, launched] := mergeSort_of_pairwise (by decide)
  have hkept : keptFirsts [[creating, launched]] 1 = [launched] := by
    rw [keptFirsts, horder]
    decide
  apply (timeline_iff (Nat.le_refl 1) (by decide)).mpr
  constructor
  · intro x hx
    rw [hkept, mem_singleton] at hx
    subst hx
    decide
  · intro x _ e he _ _ y hy
    rw [hkept, mem_singleton] at hy
    subst hy
    have hboth : ∀ e ∈ [[creating, launched]].flatten, e.time ≤ launched.time := by decide
    exact .inl (hboth e he)

/-- A line that goes on is cut where it began, and one that ended before is kept. -/
theorem activity_cuts_newest :
    ¬ Timeline [[creating, launched, creatingAgain]].flatten 1
      (mergeActivity [[creating, launched, creatingAgain]] 1) := by
  have horder : inOrder [[creating, launched, creatingAgain]] = [creating, launched, creatingAgain] :=
    mergeSort_of_pairwise (by decide)
  have hout : mergeActivity [[creating, launched, creatingAgain]] 1 = [launched] := by
    rw [mergeActivity, horder]
    decide
  rw [hout]
  intro h
  have hearlier : ∀ e ∈ occurrences [[creating, launched, creatingAgain]].flatten launched,
      ¬ creatingAgain.time ≤ e.time := by decide
  rcases h.lines creatingAgain (by decide) (by decide)
    (by decide) launched mem_cons_self with hle | ⟨e, he, hle⟩
  · exact absurd hle (by decide)
  · exact hearlier e he hle

/-! ### Merging again -/

variable {e : ActivityEntry τ} {limit : ℕ}

/-- In order, and no line in it twice. -/
structure Tidy (l : List (ActivityEntry τ)) : Prop where
  sorted : l.Pairwise fun a b => a.time ≤ b.time
  once : l.Pairwise fun a b => ∀ k, a.foldKey = some k → b.foldKey ≠ some k

theorem Tidy.sublist {l l' : List (ActivityEntry τ)} (h : Tidy l) (hsub : l'.Sublist l) : Tidy l' :=
  ⟨h.sorted.sublist hsub, h.once.sublist hsub⟩

theorem Tidy.folded_eq (h : Tidy l) (he : e ∈ l) : folded l e = e := by
  unfold folded
  cases hk : e.foldKey with
  | none => rfl
  | some k =>
    obtain ⟨pre, post, rfl⟩ := append_of_mem he
    obtain ⟨-, hpost, hpre⟩ := pairwise_append.mp h.once
    have hbefore : pre.filter (fun f => f.foldKey = some k) = [] := by
      rw [filter_eq_nil_iff]
      intro f hf hfk
      exact hpre f hf e mem_cons_self k (of_decide_eq_true hfk) hk
    have hafter : post.filter (fun f => f.foldKey = some k) = [] := by
      rw [filter_eq_nil_iff]
      intro f hf hfk
      exact (pairwise_cons.mp hpost).1 f hf k hk (of_decide_eq_true hfk)
    dsimp only
    rw [filter_append, hbefore, filter_cons, if_pos (decide_eq_true hk), hafter]
    rfl

theorem Tidy.mergeActivity_eq (h : Tidy l) : mergeActivity [l] limit = sliceLast limit l := by
  have horder : inOrder [l] = l := by
    unfold inOrder
    rw [flatten_singleton]
    exact mergeSort_of_pairwise (h.sorted.imp fun h => decide_eq_true h)
  have hfolded : l.map (folded l) = l := by
    conv_rhs => rw [← map_id l]
    exact map_congr_left fun e he => h.folded_eq he
  unfold mergeActivity
  rw [horder, (merges_foldl l).out, firsts_eq_self h.once, hfolded]

theorem tidy_mergeActivity (limit : ℕ) : Tidy (mergeActivity sets limit) := by
  have hfirsts : Tidy (firsts ActivityEntry.foldKey (inOrder sets)) :=
    ⟨(inOrder_pairwise sets).sublist (firsts_sublist _), pairwise_firsts _⟩
  have hall : Tidy ((firsts ActivityEntry.foldKey (inOrder sets)).map (folded (inOrder sets))) := by
    have hkey : ∀ f, (folded (inOrder sets) f).foldKey = f.foldKey := by
      intro f
      have hline := folded_line (inOrder sets) f
      unfold ActivityEntry.foldKey
      rw [ActivityEntry.lineKey_of_line hline, if_congr (ActivityEntry.isEvent_of_line hline) rfl rfl]
    constructor
    · simpa only [pairwise_map, folded_time] using hfirsts.sorted
    · simpa only [pairwise_map, hkey] using hfirsts.once
  unfold mergeActivity sliceLast
  rw [(merges_foldl (inOrder sets)).out]
  split_ifs
  · exact hall
  · exact hall.sublist (drop_sublist _ _)

theorem sliceLast_sliceLast {α : Type*} (limit : ℕ) (l : List α) :
    sliceLast limit (sliceLast limit l) = sliceLast limit l := by
  unfold sliceLast
  split_ifs with h
  · rfl
  · rw [drop_drop, length_drop]
    congr 1
    omega

/-- A timeline that is merged again stays as it is. -/
theorem mergeActivity_again (sets : List (List (ActivityEntry τ))) (limit : ℕ) :
    mergeActivity [mergeActivity sets limit] limit = mergeActivity sets limit := by
  rw [(tidy_mergeActivity sets limit).mergeActivity_eq]
  exact sliceLast_sliceLast limit _

end IncusCloud.Kubernetes