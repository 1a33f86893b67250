import IncusCloud.Reconcile.Worker
import IncusCloud.Lib.Run
import IncusCloud.Lib.Slots
import Mathlib.Order.Nat

/-!
# No reconcile request is lost

A tick reads a cluster's generation before its pass begins, and a request makes a generation that no
tick has read yet. So a pass that ends and records generation `g` began after every request up to
`g` was made, whatever the other replicas do meanwhile; one that records an older generation than
another replica did only makes the cluster due again.
-/

open List
open Option (map_eq_some_iff some.inj)

namespace IncusCloud.Reconcile

open Lib (Run forall_mem_set)
open Nat (lt_succ_self)

variable {Id Tenant : Type}

namespace TickPhase

variable {c : Id}

def held : TickPhase Id → List (Due Id)
  | visiting todo => todo
  | renewed c rest => c :: rest
  | passing c rest _ => c :: rest
  | passed c rest _ => c :: rest
  | _ => []

def pass : TickPhase Id → Option (Due Id × ℕ)
  | passing c _ began => some (c, began)
  | passed c _ began => some (c, began)
  | _ => none

def ended : TickPhase Id → Option (Due Id × ℕ)
  | passed c _ began => some (c, began)
  | _ => none

theorem mem_held_of_pass (p : TickPhase Id) (d : Due Id) (began : ℕ)
    (h : p.pass = some (d, began)) : d ∈ p.held := by
  cases p with
  | passing c rest b =>
    obtain ⟨rfl, rfl⟩ := Prod.mk.inj (some.inj h)
    exact mem_cons_self
  | passed c rest b =>
    obtain ⟨rfl, rfl⟩ := Prod.mk.inj (some.inj h)
    exact mem_cons_self
  | _ => cases h

end TickPhase

def Fleet.Covered (f : Fleet Id Tenant) (q : Made Id) : Prop :=
  ∃ p ∈ f.passes, p.cluster = q.cluster ∧ q.made < p.began

/-! ### What a replica knows -/

/-- What holds of a phase: the generations it holds have been made, a pass it is in began after the
requests up to its generation, and a pass it has ended is among the passes. -/
structure Sound (f : Fleet Id Tenant) (p : TickPhase Id) : Prop where
  enrolled : ∀ d ∈ p.held, d.id ∈ f.enrolled
  made : ∀ d ∈ p.held, ∀ r ∈ f.rows, r.id = d.id → d.generation ≤ r.reconcileGeneration
  began : ∀ d began, p.pass = some (d, began) →
    ∀ q ∈ f.requests, q.cluster = d.id → q.generation ≤ d.generation → q.made < began
  ended : ∀ d began, p.ended = some (d, began) → ∃ x ∈ f.passes, x.cluster = d.id ∧ x.began = began

/-- What a step does to what the replicas share: generations only grow, a new row has a new id, and
a new request makes a generation above the one it finds. -/
structure Evolves (f f' : Fleet Id Tenant) : Prop where
  enrolled : f.enrolled ⊆ f'.enrolled
  passes : f.passes ⊆ f'.passes
  rows : ∀ r' ∈ f'.rows, r'.id ∉ f.enrolled ∨
    ∃ r ∈ f.rows, r.id = r'.id ∧ r.reconcileGeneration ≤ r'.reconcileGeneration
  requests : ∀ q ∈ f'.requests, q ∈ f.requests ∨
    ∃ r ∈ f.rows, r.id = q.cluster ∧ r.reconcileGeneration < q.generation

variable {f f' : Fleet Id Tenant}

theorem Sound.evolves {p : TickPhase Id} (h : Sound f p) (he : Evolves f f') : Sound f' p := by
  refine ⟨fun d hd => he.enrolled (h.enrolled d hd), ?_, ?_, ?_⟩
  · intro d hd r' hr' hid
    rcases he.rows r' hr' with hnew | ⟨r, hr, hrid, hle⟩
    · rw [hid] at hnew
      exact absurd (h.enrolled d hd) hnew
    · exact le_trans (h.made d hd r hr (hrid.trans hid)) hle
  · intro d began hp q hq hc hg
    rcases he.requests q hq with hq | ⟨r, hr, hrid, hlt⟩
    · exact h.began d began hp q hq hc hg
    · -- The request is new: its generation is above the one this tick has read.
      have hle := h.made d (p.mem_held_of_pass d began hp) r hr (hrid.trans hc)
      omega
  · intro d began hp
    obtain ⟨x, hx, hxc, hxb⟩ := h.ended d began hp
    exact ⟨x, he.passes hx, hxc, hxb⟩

variable {f : Fleet Id Tenant}

theorem sound_of_held_nil {p : TickPhase Id} (h : p.held = [])
    (hp : p.pass = none) (he : p.ended = none) : Sound f p := by
  refine ⟨?_, ?_, ?_, ?_⟩
  · rw [h]
    simp
  · rw [h]
    simp
  · rw [hp]
    simp
  · rw [he]
    simp

/-! ### The invariant -/

/-- What holds in every state, for a cluster `c` that is never disabled. -/
structure Inv (c : Id) (f : Fleet Id Tenant) : Prop where
  nodup : (f.rows.map (·.id)).Nodup
  ids : ∀ r ∈ f.rows, r.id ∈ f.enrolled
  served_le : ∀ r ∈ f.rows, r.reconciledGeneration ≤ r.reconcileGeneration
  enabled : ∀ r ∈ f.rows, r.id = c → r.status ≠ .disabled
  past : ∀ q ∈ f.requests, q.made < f.tick ∧ q.cluster ∈ f.enrolled
  bumped : ∀ q ∈ f.requests, ∀ r ∈ f.rows, r.id = q.cluster → q.generation ≤ r.reconcileGeneration
  covered : ∀ q ∈ f.requests, q.cluster = c → ∀ r ∈ f.rows, r.id = c →
    q.generation ≤ r.reconciledGeneration → f.Covered q
  sound : ∀ w ∈ f.replicas, Sound f w.phase

theorem Fleet.Covered.mono {q : Made Id} (h : f.Covered q)
    (hp : f.passes ⊆ f'.passes) : f'.Covered q := by
  obtain ⟨x, hx, hc, hb⟩ := h
  exact ⟨x, hp hx, hc, hb⟩

/-- A step that changes rows in place, keeping their ids and generations. -/
structure Rewrites (g : ReconcileRow Id → ReconcileRow Id) (f f' : Fleet Id Tenant) : Prop where
  rows : f'.rows = f.rows.map g
  id : ∀ r, (g r).id = r.id
  generation : ∀ r, (g r).reconcileGeneration = r.reconcileGeneration
  enrolled : f'.enrolled = f.enrolled
  requests : f'.requests = f.requests
  passes : f.passes ⊆ f'.passes
  tick : f.tick < f'.tick

variable {g : ReconcileRow Id → ReconcileRow Id}

theorem Rewrites.evolves (h : Rewrites g f f') : Evolves f f' := by
  refine ⟨h.enrolled ▸ fun _ hx => hx, h.passes, ?_, fun q hq => .inl (h.requests ▸ hq)⟩
  intro r' hr'
  rw [h.rows] at hr'
  obtain ⟨r, hr, rfl⟩ := List.mem_map.mp hr'
  exact .inr ⟨r, hr, (h.id r).symm, (h.generation r).ge⟩

theorem Inv.rewrites
    (hi : Inv c f) (h : Rewrites g f f')
    (hle : ∀ r ∈ f.rows, (g r).reconciledGeneration ≤ r.reconcileGeneration)
    (hon : ∀ r ∈ f.rows, r.id = c → (g r).status ≠ .disabled)
    (hcov : ∀ q ∈ f.requests, q.cluster = c → ∀ r ∈ f.rows, r.id = c →
      q.generation ≤ (g r).reconciledGeneration → f'.Covered q)
    (hs : ∀ w ∈ f'.replicas, w ∈ f.replicas ∨ Sound f' w.phase) : Inv c f' := by
  have hrow : ∀ r' ∈ f'.rows, ∃ r ∈ f.rows, g r = r' := by
    intro r' hr'
    rw [h.rows] at hr'
    exact List.mem_map.mp hr'
  refine ⟨?_, ?_, ?_, ?_, ?_, ?_, ?_, ?_⟩
  · rw [h.rows, map_map, show (·.id) ∘ g = (·.id) from funext h.id]
    exact hi.nodup
  · intro r' hr'
    obtain ⟨r, hr, rfl⟩ := hrow r' hr'
    rw [h.id, h.enrolled]
    exact hi.ids r hr
  · intro r' hr'
    obtain ⟨r, hr, rfl⟩ := hrow r' hr'
    rw [h.generation]
    exact hle r hr
  · intro r' hr' hc
    obtain ⟨r, hr, rfl⟩ := hrow r' hr'
    exact hon r hr (h.id r ▸ hc)
  · intro q hq
    rw [h.requests] at hq
    rw [h.enrolled]
    exact ⟨(hi.past q hq).1.trans h.tick, (hi.past q hq).2⟩
  · intro q hq r' hr' hc
    obtain ⟨r, hr, rfl⟩ := hrow r' hr'
    rw [h.requests] at hq
    rw [h.generation]
    exact hi.bumped q hq r hr (h.id r ▸ hc)
  · intro q hq hqc r' hr' hc hg
    obtain ⟨r, hr, rfl⟩ := hrow r' hr'
    rw [h.requests] at hq
    exact hcov q hq hqc r hr (h.id r ▸ hc) hg
  · intro w hw
    rcases hs w hw with hw | hw
    · exact (hi.sound w hw).evolves h.evolves
    · exact hw

theorem Inv.quiet (hi : Inv c f) (h : Rewrites id f f')
    (hs : ∀ w ∈ f'.replicas, w ∈ f.replicas ∨ Sound f' w.phase) : Inv c f' :=
  hi.rewrites h hi.served_le hi.enabled
    (fun q hq hqc r hr hc hg => (hi.covered q hq hqc r hr hc hg).mono h.passes) hs

/-! ### Steps -/

theorem Inv.put (hi : Inv c f) (i : ℕ) (w : Replica Id)
    (hs : Sound (f.put i w) w.phase) : Inv c (f.put i w) := by
  refine hi.quiet ⟨(map_id _).symm, fun _ => rfl, fun _ => rfl, rfl, rfl, fun _ h => h,
    lt_succ_self _⟩ ?_
  exact forall_mem_set (fun x hx => .inl hx) (.inr hs)

theorem Inv.acquire (hi : Inv c f) (i : ℕ) (w : Replica Id)
    (phase : TickPhase Id) (hs : Sound (f.acquire i w phase) phase) :
    Inv c (f.acquire i w phase) := by
  refine hi.quiet ⟨(map_id _).symm, fun _ => rfl, fun _ => rfl, rfl, rfl, fun _ h => h,
    lt_succ_self _⟩ ?_
  refine forall_mem_set (fun x hx => .inl hx) (.inr ?_)
  show Sound _ (if _ then phase else .idle)
  split_ifs
  · exact hs
  · exact sound_of_held_nil rfl rfl rfl

theorem mem_due {rows : List (ReconcileRow Id)} {staleBefore : Int} {d : Due Id} :
    d ∈ due rows staleBefore ↔
      ∃ r ∈ rows, r.isDue staleBefore ∧ d = ⟨r.id, r.name, r.reconcileGeneration⟩ := by
  simp only [due, List.mem_map, mem_insertionSort, mem_filter, and_assoc, eq_comm]

theorem sound_select (hi : Inv c f) (i : ℕ) (w : Replica Id)
    (staleBefore : Int) : Sound (f.put i w) (.visiting (due f.rows staleBefore)) := by
  refine ⟨?_, ?_, by simp [TickPhase.pass], by simp [TickPhase.ended]⟩
  · intro d hd
    obtain ⟨r, hr, -, rfl⟩ := mem_due.mp hd
    exact hi.ids r hr
  · intro d hd r' hr' hid
    obtain ⟨r, hr, -, rfl⟩ := mem_due.mp hd
    obtain rfl : r' = r := inj_on_of_nodup_map hi.nodup hr' hr hid
    exact le_rfl

theorem Inv.enroll (hi : Inv c f) {id : Id} (name : String)
    (hid : id ∉ f.enrolled) :
    Inv c
      { f with
        tick := f.tick + 1
        rows := f.rows ++ [⟨id, name, .pending, none, none, 0, 0⟩]
        enrolled := id :: f.enrolled } := by
  have hrow : ∀ r' ∈ f.rows ++ [(⟨id, name, .pending, none, none, 0, 0⟩ : ReconcileRow Id)],
      r' ∈ f.rows ∨ r' = ⟨id, name, .pending, none, none, 0, 0⟩ := by
    intro r' hr'
    simpa using hr'
  refine ⟨?_, ?_, ?_, ?_, ?_, ?_, ?_, ?_⟩
  · rw [map_append, nodup_append]
    refine ⟨hi.nodup, by simp, ?_⟩
    rintro a ha b hb rfl
    obtain ⟨r, hr, rfl⟩ := List.mem_map.mp ha
    have hb : r.id = id := by simpa using hb
    exact hid (hb ▸ hi.ids r hr)
  · intro r' hr'
    rcases hrow r' hr' with hr | rfl
    · exact mem_cons_of_mem _ (hi.ids r' hr)
    · exact mem_cons_self
  · intro r' hr'
    rcases hrow r' hr' with hr | rfl
    · exact hi.served_le r' hr
    · exact le_rfl
  · intro r' hr' hc
    rcases hrow r' hr' with hr | rfl
    · exact hi.enabled r' hr hc
    · exact (nomatch ·)
  · intro q hq
    exact ⟨Nat.lt_succ_of_lt (hi.past q hq).1, mem_cons_of_mem _ (hi.past q hq).2⟩
  · intro q hq r' hr' hc
    rcases hrow r' hr' with hr | rfl
    · exact hi.bumped q hq r' hr hc
    · have hc : id = q.cluster := hc
      rw [hc] at hid
      exact absurd (hi.past q hq).2 hid
  · intro q hq hqc r' hr' hc hg
    rcases hrow r' hr' with hr | rfl
    · exact hi.covered q hq hqc r' hr hc hg
    · have hc : id = q.cluster := hc.trans hqc.symm
      rw [hc] at hid
      exact absurd (hi.past q hq).2 hid
  · intro w hw
    refine (hi.sound w hw).evolves
      ⟨fun _ h => mem_cons_of_mem _ h, fun _ h => h, ?_, fun q hq => .inl hq⟩
    intro r' hr'
    rcases hrow r' hr' with hr | rfl
    · exact .inr ⟨r', hr, rfl, le_rfl⟩
    · exact .inl hid

theorem Inv.request (hi : Inv c f) (covers : Id → Bool) :
    Inv c
      { f with
        tick := f.tick + 1
        rows := requestReconcile f.rows f.now covers
        requests :=
          ((f.rows.filter fun r => covers r.id).map fun r =>
              ⟨r.id, r.reconcileGeneration + 1, f.tick⟩) ++
            f.requests } := by
  have hrow : ∀ r' ∈ requestReconcile f.rows f.now covers, ∃ r ∈ f.rows,
      r'.id = r.id ∧ r'.status = r.status ∧ r'.reconciledGeneration = r.reconciledGeneration ∧
      r'.reconcileGeneration = r.reconcileGeneration + if covers r.id then 1 else 0 := by
    intro r' hr'
    obtain ⟨r, hr, rfl⟩ := List.mem_map.mp hr'
    refine ⟨r, hr, ?_⟩
    split_ifs
    · exact ⟨rfl, rfl, rfl, rfl⟩
    · exact ⟨rfl, rfl, rfl, rfl⟩
  have hreq : ∀ q ∈ ((f.rows.filter fun r => covers r.id).map fun r =>
      (⟨r.id, r.reconcileGeneration + 1, f.tick⟩ : Made Id)) ++ f.requests,
      q ∈ f.requests ∨
      ∃ r ∈ f.rows, covers r.id ∧ q = ⟨r.id, r.reconcileGeneration + 1, f.tick⟩ := by
    intro q hq
    rcases mem_append.mp hq with hq | hq
    · obtain ⟨r, hr, rfl⟩ := List.mem_map.mp hq
      obtain ⟨hr, hcov⟩ := mem_filter.mp hr
      exact .inr ⟨r, hr, hcov, rfl⟩
    · exact .inl hq
  have huniq : ∀ r ∈ f.rows, ∀ s ∈ f.rows, r.id = s.id → r = s :=
    fun r hr s hs => inj_on_of_nodup_map hi.nodup hr hs
  refine ⟨?_, ?_, ?_, ?_, ?_, ?_, ?_, ?_⟩
  · have hids : (requestReconcile f.rows f.now covers).map (·.id) = f.rows.map (·.id) := by
      rw [requestReconcile, map_map]
      refine map_congr_left fun r _ => ?_
      show (if covers r.id then r.request f.now else r).id = r.id
      split_ifs
      · rfl
      · rfl
    rw [hids]
    exact hi.nodup
  · intro r' hr'
    obtain ⟨r, hr, hid, -⟩ := hrow r' hr'
    rw [hid]
    exact hi.ids r hr
  · intro r' hr'
    obtain ⟨r, hr, -, -, hrec, hgen⟩ := hrow r' hr'
    have := hi.served_le r hr
    omega
  · intro r' hr' hc
    obtain ⟨r, hr, hid, hst, -⟩ := hrow r' hr'
    rw [hst]
    exact hi.enabled r hr (hid ▸ hc)
  · intro q hq
    rcases hreq q hq with hq | ⟨r, hr, -, rfl⟩
    · exact ⟨Nat.lt_succ_of_lt (hi.past q hq).1, (hi.past q hq).2⟩
    · exact ⟨lt_succ_self _, hi.ids r hr⟩
  · intro q hq r' hr' hc
    obtain ⟨r, hr, hid, -, -, hgen⟩ := hrow r' hr'
    rcases hreq q hq with hq | ⟨s, hs, hcov, rfl⟩
    · have := hi.bumped q hq r hr (hid ▸ hc)
      omega
    · obtain rfl := huniq r hr s hs (hid ▸ hc)
      rw [hgen, if_pos hcov]
  · intro q hq hqc r' hr' hc hg
    obtain ⟨r, hr, hid, -, hrec, hgen⟩ := hrow r' hr'
    rcases hreq q hq with hq | ⟨s, hs, hcov, rfl⟩
    · exact hi.covered q hq hqc r hr (hid ▸ hc) (hrec ▸ hg)
    · -- What it makes is above every generation served so far.
      obtain rfl := huniq r hr s hs (hid ▸ hc.trans hqc.symm)
      have hle := hi.served_le r hr
      have hg : r.reconcileGeneration + 1 ≤ r'.reconciledGeneration := hg
      omega
  · intro w hw
    refine (hi.sound w hw).evolves ⟨fun _ h => h, fun _ h => h, ?_, ?_⟩
    · intro r' hr'
      obtain ⟨r, hr, hid, -, -, hgen⟩ := hrow r' hr'
      exact .inr ⟨r, hr, hid.symm, by omega⟩
    · intro q hq
      rcases hreq q hq with hq | ⟨r, hr, -, rfl⟩
      · exact .inl hq
      · exact .inr ⟨r, hr, rfl, lt_succ_self _⟩

theorem drop_spec (r : ReconcileRow Id) : r.drop.id = r.id ∧
    r.drop.reconcileGeneration = r.reconcileGeneration ∧ r.drop.status = r.status := by
  unfold ReconcileRow.drop
  split_ifs
  · exact ⟨rfl, rfl, rfl⟩
  · exact ⟨rfl, rfl, rfl⟩

theorem Inv.sweep (hi : Inv c f) (i : ℕ) (w : Replica Id)
    (hw : w.phase = .idle) : Inv c { f.put i w with rows := f.rows.map (·.drop) } := by
  refine hi.rewrites ⟨rfl, fun r => (drop_spec r).1, fun r => (drop_spec r).2.1, rfl, rfl,
    fun _ h => h, lt_succ_self _⟩ ?_ ?_ ?_ ?_
  · intro r hr
    have hle := hi.served_le r hr
    unfold ReconcileRow.drop
    split_ifs
    · exact le_rfl
    · exact hle
  · intro r hr hc
    rw [(drop_spec r).2.2]
    exact hi.enabled r hr hc
  · intro q hq hqc r hr hc hg
    have hne : r.drop = r := if_neg fun h => hi.enabled r hr hc h.1
    rw [hne] at hg
    exact hi.covered q hq hqc r hr hc hg
  · refine forall_mem_set (fun x hx => .inl hx) (.inr ?_)
    rw [hw]
    exact sound_of_held_nil rfl rfl rfl

theorem inv_boot (c : Id) : Inv c (Fleet.boot : Fleet Id Tenant) := by
  refine ⟨nodup_nil, ?_, ?_, ?_, ?_, ?_, ?_, ?_⟩ <;> exact nofun

section Steps

variable [DecidableEq Id]

theorem updateRow_id {id : Id}
    (hg : ∀ r, (g r).id = r.id) (r : ReconcileRow Id) :
    (if r.id = id then g r else r).id = r.id := by
  split_ifs
  · exact hg r
  · rfl

theorem updateRow_generation {id : Id}
    (hg : ∀ r, (g r).reconcileGeneration = r.reconcileGeneration) (r : ReconcileRow Id) :
    (if r.id = id then g r else r).reconcileGeneration = r.reconcileGeneration := by
  split_ifs
  · exact hg r
  · rfl

theorem Inv.delete (hi : Inv c f) (id : Id)
    (placements : List (Tenant × Id)) :
    Inv c
      { f with
        tick := f.tick + 1
        rows := f.rows.filter fun r => r.id ≠ id
        placements := placements } := by
  have hrow : ∀ r' ∈ f.rows.filter fun r => r.id ≠ id, r' ∈ f.rows :=
    fun r' hr' => mem_of_mem_filter hr'
  refine ⟨?_, fun r hr => hi.ids r (hrow r hr), fun r hr => hi.served_le r (hrow r hr),
    fun r hr => hi.enabled r (hrow r hr), ?_, fun q hq r hr => hi.bumped q hq r (hrow r hr),
    fun q hq hqc r hr => hi.covered q hq hqc r (hrow r hr), ?_⟩
  · exact hi.nodup.sublist (filter_sublist.map _)
  · intro q hq
    exact ⟨Nat.lt_succ_of_lt (hi.past q hq).1, (hi.past q hq).2⟩
  · intro w hw
    exact (hi.sound w hw).evolves
      ⟨fun _ h => h, fun _ h => h, fun r' hr' => .inr ⟨r', hrow r' hr', rfl, le_rfl⟩,
        fun q hq => .inl hq⟩

theorem Inv.setColumns (hi : Inv c f) (id : Id) (hid : ∀ r, (g r).id = r.id)
    (hgen : ∀ r, (g r).reconcileGeneration = r.reconcileGeneration)
    (hrec : ∀ r, (g r).reconciledGeneration = r.reconciledGeneration)
    (hon : id = c → ∀ r ∈ f.rows, (g r).status ≠ .disabled) :
    Inv c { f with tick := f.tick + 1, rows := updateRow f.rows id g } := by
  have hsame : ∀ r, (if r.id = id then g r else r).reconciledGeneration = r.reconciledGeneration := by
    intro r
    split_ifs
    · exact hrec r
    · rfl
  refine hi.rewrites ⟨rfl, updateRow_id hid, updateRow_generation hgen, rfl, rfl, fun _ h => h,
    lt_succ_self _⟩ ?_ ?_ ?_ fun w hw => .inl hw
  · intro r hr
    rw [hsame]
    exact hi.served_le r hr
  · intro r hr hc
    split_ifs with heq
    · exact hon (heq.symm.trans hc) r hr
    · exact hi.enabled r hr hc
  · intro q hq hqc r hr hc hg
    rw [hsame] at hg
    exact hi.covered q hq hqc r hr hc hg

theorem Inv.record (hi : Inv c f) (i : ℕ) (w : Replica Id)
    {d : Due Id} {rest : List (Due Id)} {began : ℕ} (hw : w.phase = .visiting rest)
    (hs : Sound f (.passed d rest began)) :
    Inv c { f.put i w with rows := updateRow f.rows d.id (·.served d) } := by
  have hrw : Rewrites _ f { f.put i w with rows := updateRow f.rows d.id (·.served d) } :=
    ⟨rfl, updateRow_id fun _ => rfl, updateRow_generation fun _ => rfl, rfl, rfl, fun _ h => h,
      lt_succ_self _⟩
  refine hi.rewrites hrw ?_ ?_ ?_ ?_
  · intro r hr
    split_ifs with heq
    · exact hs.made d mem_cons_self r hr heq
    · exact hi.served_le r hr
  · intro r hr hc
    have := hi.enabled r hr hc
    split_ifs <;> exact this
  · intro q hq hqc r hr hc hg
    split_ifs at hg with heq
    · have hqd : q.cluster = d.id := hqc.trans (hc.symm.trans heq)
      obtain ⟨x, hx, hxc, hxb⟩ := hs.ended d began rfl
      refine ⟨x, hx, hxc.trans hqd.symm, ?_⟩
      rw [hxb]
      exact hs.began d began rfl q hq hqd hg
    · exact hi.covered q hq hqc r hr hc hg
  · refine forall_mem_set (fun x hx => .inl hx) (.inr ?_)
    have he := hs.evolves hrw.evolves
    rw [hw]
    exact ⟨fun x hx => he.enrolled x (mem_cons_of_mem _ hx),
      fun x hx => he.made x (mem_cons_of_mem _ hx), nofun, nofun⟩

variable [DecidableEq Tenant]

def NeverDisabled (c : Id) (_ : Fleet Id Tenant) (a : LoopAction Id Tenant) : Prop :=
  a ≠ .setStatus c .disabled

instance (c : Id) (f : Fleet Id Tenant) (a : LoopAction Id Tenant) :
    Decidable (NeverDisabled c f a) :=
  inferInstanceAs (Decidable (a ≠ .setStatus c .disabled))

theorem Inv.step {a : LoopAction Id Tenant} (hi : Inv c f)
    (hok : NeverDisabled c f a) (h : f.step a = some f') : Inv c f' := by
  have hid : ∀ g : Fleet Id Tenant, g.rows = f.rows → g.enrolled = f.enrolled →
      g.requests = f.requests → f.passes ⊆ g.passes → f.tick < g.tick → Rewrites id f g :=
    fun g h1 h2 h3 h4 h5 => ⟨by simp [h1], fun _ => rfl, fun _ => rfl, h2, h3, h4, h5⟩
  cases a with
  | clock now =>
    obtain rfl := some.inj h
    exact hi.quiet (hid _ rfl rfl rfl (fun _ h => h) (lt_succ_self _)) fun w hw => .inl hw
  | enroll id name =>
    simp only [Fleet.step] at h
    split_ifs at h with hnew
    obtain rfl := some.inj h
    exact hi.enroll name hnew
  | delete id =>
    obtain rfl := some.inj h
    exact hi.delete id _
  | setStatus id status =>
    obtain rfl := some.inj h
    refine hi.setColumns id (fun _ => rfl) (fun _ => rfl) (fun _ => rfl) ?_
    rintro rfl r - rfl
    exact hok rfl
  | place t id =>
    obtain rfl := some.inj h
    exact hi.quiet (hid _ rfl rfl rfl (fun _ h => h) (lt_succ_self _)) fun w hw => .inl hw
  | unplace t id =>
    obtain rfl := some.inj h
    exact hi.quiet (hid _ rfl rfl rfl (fun _ h => h) (lt_succ_self _)) fun w hw => .inl hw
  | request target =>
    obtain rfl := some.inj h
    exact hi.request _
  | join holder leaseMs =>
    obtain rfl := some.inj h
    refine hi.quiet (hid _ rfl rfl rfl (fun _ h => h) (lt_succ_self _)) fun w hw => ?_
    rcases mem_append.mp hw with hw | hw
    · exact .inl hw
    · rw [mem_singleton.mp hw]
      exact .inr (sound_of_held_nil rfl rfl rfl)
  | stop i =>
    obtain ⟨w, hw, rfl⟩ := map_eq_some_iff.mp h
    refine hi.put i _ ?_
    exact (hi.sound w (mem_of_getElem? hw)).evolves
      (hid (f.put i _) rfl rfl rfl (fun _ h => h) (lt_succ_self _)).evolves
  | tick i =>
    simp only [Fleet.step] at h
    split at h
    · obtain rfl := some.inj h
      exact hi.acquire i _ _ (sound_of_held_nil rfl rfl rfl)
    · cases h
  | select i staleBefore =>
    simp only [Fleet.step] at h
    split at h
    · obtain rfl := some.inj h
      exact hi.put i _ (sound_select hi i _ staleBefore)
    · cases h
  | visit i =>
    simp only [Fleet.step] at h
    split at h
    · obtain rfl := some.inj h
      exact hi.put i _ (sound_of_held_nil rfl rfl rfl)
    · rename_i holder ms stopped d rest hw
      split_ifs at h
      · obtain rfl := some.inj h
        exact hi.put i _ (sound_of_held_nil rfl rfl rfl)
      · obtain rfl := some.inj h
        have hs := hi.sound _ (mem_of_getElem? hw)
        exact hi.acquire i _ _ ⟨hs.enrolled, hs.made, nofun, nofun⟩
    · cases h
  | reconcile i =>
    simp only [Fleet.step] at h
    split at h
    · rename_i holder ms stopped d rest hw
      obtain rfl := some.inj h
      have hs := hi.sound _ (mem_of_getElem? hw)
      refine hi.put i _ ⟨hs.enrolled, hs.made, ?_, nofun⟩
      -- Every request so far was made before this moment.
      intro d' began hp q hq _ _
      obtain ⟨-, rfl⟩ := Prod.mk.inj (some.inj hp)
      exact (hi.past q hq).1
    · cases h
  | finish i status =>
    simp only [Fleet.step] at h
    split at h
    · rename_i d rest began hw
      split_ifs at h with hst
      obtain rfl := some.inj h
      refine hi.setColumns d.id (fun _ => rfl) (fun _ => rfl) (fun _ => rfl) ?_
      rintro - r - rfl
      simp at hst
    · cases h
  | passEnd i =>
    simp only [Fleet.step] at h
    split at h
    · rename_i holder ms stopped d rest began hw
      obtain rfl := some.inj h
      have hs := hi.sound _ (mem_of_getElem? hw)
      refine hi.quiet (hid _ rfl rfl rfl (fun _ h => mem_cons_of_mem _ h) (lt_succ_self _)) ?_
      refine forall_mem_set (fun x hx => .inl hx) (.inr ⟨hs.enrolled, hs.made, hs.began, ?_⟩)
      intro d' began' hp
      obtain ⟨rfl, rfl⟩ := Prod.mk.inj (some.inj hp)
      exact ⟨_, mem_cons_self, rfl, rfl⟩
    · cases h
  | record i =>
    simp only [Fleet.step] at h
    split at h
    · rename_i holder ms stopped d rest began hw
      obtain rfl := some.inj h
      exact hi.record i ⟨holder, ms, stopped, .visiting rest⟩ rfl (hi.sound _ (mem_of_getElem? hw))
    · cases h
  | sweep i =>
    simp only [Fleet.step] at h
    split at h
    · obtain rfl := some.inj h
      exact hi.sweep i _ rfl
    · cases h
  | fail i =>
    obtain ⟨w, hw, rfl⟩ := map_eq_some_iff.mp h
    exact hi.put i _ (sound_of_held_nil rfl rfl rfl)

/-- Whatever requests, ticks, lost leases and failing passes are interleaved, for a cluster that is
never disabled: the generation served is one that was made; a request that it covers has been
followed by a whole pass; and one that no such pass has covered leaves the cluster due. -/
theorem requests_never_lost {c : Id} {f : Fleet Id Tenant}
    (h : Run Fleet.step (NeverDisabled c) Fleet.boot f) :
    (∀ r ∈ f.rows, r.id = c → r.reconciledGeneration ≤ r.reconcileGeneration) ∧
    (∀ q ∈ f.requests, q.cluster = c → ∀ r ∈ f.rows, r.id = c →
      q.generation ≤ r.reconciledGeneration → f.Covered q) ∧
    (∀ q ∈ f.requests, q.cluster = c → ¬ f.Covered q → ∀ r ∈ f.rows, r.id = c →
      ∀ staleBefore, ∃ d ∈ due f.rows staleBefore, d.id = c) := by
  have hi : Inv c f := h.invariant (inv_boot c) fun t a u ht hok hs => ht.step hok hs
  refine ⟨fun r hr _ => hi.served_le r hr, hi.covered, ?_⟩
  intro q hq hqc hnot r hr hc staleBefore
  have hlt : r.reconciledGeneration < r.reconcileGeneration := by
    have hle := hi.bumped q hq r hr (hc.trans hqc.symm)
    have hgt : ¬ q.generation ≤ r.reconciledGeneration :=
      fun hg => hnot (hi.covered q hq hqc r hr hc hg)
    omega
  refine ⟨⟨r.id, r.name, r.reconcileGeneration⟩, mem_due.mpr ⟨r, hr, ?_, rfl⟩, hc⟩
  simp [ReconcileRow.isDue, hi.enabled r hr hc, hlt]

/-- A request made while the tick waits to renew its lease: the pass that follows covers it and is
recorded for the request before it only, so the cluster stays due. -/
theorem requests_never_lost_midTick :
    ∃ f : Fleet ℕ ℕ, Run Fleet.step (NeverDisabled 0) Fleet.boot f ∧
      f.rows.map (fun r => (r.reconciledGeneration, r.reconcileGeneration)) = [(1, 2)] ∧
      (∀ q ∈ f.requests, q.cluster = 0 → ∀ r ∈ f.rows, r.id = 0 →
        q.generation ≤ r.reconciledGeneration → f.Covered q) ∧
      ∀ q ∈ f.requests, q.cluster = 0 → ¬ f.Covered q → ∀ r ∈ f.rows, r.id = 0 →
        ∀ staleBefore, ∃ d ∈ due f.rows staleBefore, d.id = 0 := by
  have hexec : ((Run.exec Fleet.step (NeverDisabled 0) (Fleet.boot : Fleet ℕ ℕ)
      [.enroll 0 "c", .request .all, .join "w" 30000, .tick 0, .select 0 0, .request (.ids [0]),
        .visit 0, .reconcile 0, .passEnd 0, .record 0]).map fun f =>
      f.rows.map fun r => (r.reconciledGeneration, r.reconcileGeneration)) = some [(1, 2)] := by
    decide
  obtain ⟨f, hf, hrows⟩ := map_eq_some_iff.mp hexec
  have hrun := Run.of_exec .refl hf
  exact ⟨f, hrun, hrows, (requests_never_lost hrun).2⟩

end Steps

end IncusCloud.Reconcile
