import IncusCloud.Fleet.Proofs.Statements
import IncusCloud.Fleet.Succession
import IncusCloud.Lib.Slots

/-!
# A later instance of the same name

Three tables outlive an instance by its name. An inventory pass that finds the name absent sweeps
its entries, and nothing else: the owner and the lease stay until a delete event is handled.
`successor_starts_clean`: where a new instance finds neither of them, and nothing under way that
still names its predecessor, it never has anything of the predecessor's once such a pass has swept.
`successor_inherits`: otherwise it has the predecessor's owner and its ended lease.
-/

namespace IncusCloud.Fleet

open Lib Acl Leases List
open Function (update update_apply update_of_ne update_self)
open Option (bind_eq_some_iff isNone_iff_eq_none map_eq_some_iff some.inj map_some)

variable {e : LifecycleEvent} {delivered : Bool} {stage : Stage}

/-! ### Statements -/

section Statements

variable {k k' : InstanceKey}

theorem recordOwnerOf_cases {t : InstanceKey → Option (Marked Owner)} {subject : Bool × Uuid}
    {source : OwnerSource} {of : ℕ} {r : Marked Owner}
    (h : recordOwnerOf t k subject source of k' = some r) :
    t k' = some r ∨ (k' = k ∧ r.of = of) := by
  have hupdate : update t k (some ⟨⟨some subject, source⟩, of⟩) k' = some r →
      t k' = some r ∨ (k' = k ∧ r.of = of) := by
    intro h
    rw [update_apply] at h
    split_ifs at h with hk
    · exact .inr ⟨hk, by rw [← some.inj h]⟩
    · exact .inl h
  unfold recordOwnerOf at h
  cases hold : t k with
  | none =>
    rw [hold] at h
    exact hupdate h
  | some old =>
    rw [hold] at h
    dsimp only at h
    split_ifs at h
    · exact hupdate h
    · exact .inl h

theorem rekey_of_ne {V : Type} {t t' : InstanceKey → Option V} {old new : InstanceKey}
    (h : rekey t old new = some t') (hold : k ≠ old) (hnew : k ≠ new) : t' k = t k := by
  unfold rekey at h
  cases hrow : t old with
  | none =>
    rw [hrow] at h
    rw [← some.inj h]
  | some row =>
    rw [hrow] at h
    split_ifs at h
    rw [← some.inj h, update_of_ne hnew, update_of_ne hold]

variable {cluster : Name}

/-- An entry under an instance is on that very instance. -/
def Exact (cluster : Name) (rows : List EntryRow) : Prop :=
  ∀ r ∈ rows, ∀ k, entriesUnder (instancePath cluster k) r = true → r.path = instancePath cluster k

theorem Exact.filter {rows : List EntryRow} (h : Exact cluster rows) (p : EntryRow → Bool) :
    Exact cluster (rows.filter p) := fun r hr => h r (mem_of_mem_filter hr)

theorem Exact.moveEntries {rows rows' : List EntryRow} (h : Exact cluster rows)
    {old new : InstanceKey}
    (hmove : moveEntries rows (instancePath cluster old) (instancePath cluster new) = some rows') :
    Exact cluster rows' ∧ ∀ r' ∈ rows', ∀ k, k ≠ new →
      entriesUnder (instancePath cluster k) r' = true →
        ∃ r ∈ rows, r.id = r'.id ∧ entriesUnder (instancePath cluster k) r = true := by
  have hrows : ∀ r' ∈ rows', ∃ r ∈ rows, r' = r.moved cluster old new := by
    intro r' hr'
    unfold Fleet.moveEntries at hmove
    dsimp only at hmove
    split_ifs at hmove
    rw [← some.inj hmove] at hr'
    obtain ⟨r, hr, rfl⟩ := List.mem_map.mp hr'
    refine ⟨r, hr, ?_⟩
    unfold EntryRow.moved
    split_ifs with hu
    · rw [moved_path _ (h r hr old hu)]
    · rfl
  have hcases : ∀ r' ∈ rows',
    (∃ r ∈ rows, r.id = r'.id ∧ r' = { r with path := instancePath cluster new }) ∨
      r' ∈ rows := by
    intro r' hr'
    obtain ⟨r, hr, rfl⟩ := hrows r' hr'
    unfold EntryRow.moved
    split_ifs
    · exact .inl ⟨r, hr, rfl, rfl⟩
    · exact .inr hr
  constructor
  · intro r' hr' k hu
    rcases hcases r' hr' with ⟨r, -, -, rfl⟩ | hmem
    · rw [(entriesUnder_iff rfl).mp hu]
    · exact h r' hmem k hu
  · intro r' hr' k hk hu
    rcases hcases r' hr' with ⟨r, -, -, rfl⟩ | hmem
    · exact absurd ((entriesUnder_iff rfl).mp hu) hk
    · exact ⟨r', hmem, rfl, hu⟩

theorem Exact.mem_goneEntries {rows : List EntryRow} (h : Exact cluster rows)
    {names : List InstanceKey}
    (hk : k ∉ names) {r : EntryRow} (hr : r ∈ rows)
    (hu : entriesUnder (instancePath cluster k) r = true) :
      r.id ∈ goneEntries cluster names rows := by
  have hpath := h r hr k hu
  refine mem_map_of_mem (mem_filter.mpr ⟨mem_filter.mpr ⟨hr, ?_⟩, ?_⟩)
  · rw [Bool.and_eq_true, isPrefixOf_iff_prefix, decide_eq_true_eq, hpath]
    constructor
    · simp [instancePath]
    · refine ⟨("/clusters/" ++ cluster.text ++ "/projects/" ++ k.project.text).toList,
        k.name.text.toList, ?_⟩
      simp [instancePath]
  · rw [decide_eq_true_eq, hpath]
    intro hmem
    obtain ⟨k', hk', heq⟩ := List.mem_map.mp hmem
    exact hk (instancePath_inj heq ▸ hk')

end Statements

/-! ### The numbers change nothing -/

section Unmarked

variable {V W : Type} (f : V → W) (t : InstanceKey → Option V)

def unmarked : InstanceKey → Option W := fun k => (t k).map f

theorem unmarked_update (k : InstanceKey) (v : Option V) :
    unmarked f (update t k v) = update (unmarked f t) k (v.map f) := by
  funext k'
  unfold unmarked
  rw [update_apply, update_apply]
  split_ifs <;> rfl

theorem rekey_unmarked (old new : InstanceKey) :
    rekey (unmarked f t) old new = (rekey t old new).map (unmarked f) := by
  unfold rekey
  rw [show unmarked f t old = (t old).map f from rfl,
    show unmarked f t new = (t new).map f from rfl]
  cases t old with
  | none => rfl
  | some row =>
    rw [Option.isSome_map]
    dsimp only [map_some]
    split_ifs
    · rfl
    · rw [map_some, unmarked_update, unmarked_update]
      rfl

end Unmarked

theorem recordOwner_unmarked (t : InstanceKey → Option (Marked Owner)) (k : InstanceKey)
    (subject : Bool × Uuid) (source : OwnerSource) (of : ℕ) :
    recordOwner (unmarked (·.row) t) k subject source =
      unmarked (·.row) (recordOwnerOf t k subject source of) := by
  unfold recordOwner recordOwnerOf
  rw [show unmarked (·.row) t k = (t k).map (·.row) from rfl]
  have hupdate := unmarked_update (·.row) t k (some (⟨⟨some subject, source⟩, of⟩ : Marked Owner))
  cases t k with
  | none => exact hupdate.symm
  | some old =>
    dsimp only [map_some]
    split_ifs
    · exact hupdate.symm
    · rfl

/-- The tables of `c` are those of `s` without the numbers. -/
structure Unmarks (s : Succession) (c : ClusterState) : Prop where
  owners : c.owners = unmarked (·.row) s.owners
  leases : c.leases = unmarked (·.lease) s.leases
  entries : c.entries = s.entries

/-- The handlers do to the tables what those of `Fleet/Lifecycle.lean` do. -/
theorem Unmarks.onLifecycle {cluster : Name} {s : Succession} {c : ClusterState} (h : Unmarks s c)
    (i j : ℕ) (handler : EventHandler) :
    Unmarks (s.onLifecycle cluster i handler)
      (c.onLifecycle cluster j handler.event handler.stage) := by
  obtain ⟨event, of, stage⟩ := handler
  unfold Succession.onLifecycle ClusterState.onLifecycle
  cases event with
  | created key subject =>
    cases subject with
    | none => cases stage <;> exact ⟨h.owners, h.leases, h.entries⟩
    | some subject =>
      cases stage with
      | owners =>
        have howners : recordOwner c.owners key subject .event =
            unmarked (·.row) (recordOwnerOf s.owners key subject .event of) := by
          rw [h.owners, recordOwner_unmarked]
        exact ⟨howners, h.leases, h.entries⟩
      | _ => exact ⟨h.owners, h.leases, h.entries⟩
  | renamed project old name =>
    cases stage with
    | owners =>
      dsimp only
      rw [renameOwned, h.owners, rekey_unmarked]
      cases rekey s.owners ⟨project, old⟩ ⟨project, name⟩ with
      | none => exact ⟨h.owners, h.leases, h.entries⟩
      | some owners => exact ⟨rfl, h.leases, h.entries⟩
    | leases =>
      dsimp only
      rw [renameLease, h.leases, rekey_unmarked]
      cases rekey s.leases ⟨project, old⟩ ⟨project, name⟩ with
      | none => exact ⟨h.owners, h.leases, h.entries⟩
      | some leases => exact ⟨h.owners, rfl, h.entries⟩
    | entries =>
      dsimp only
      rw [h.entries]
      cases moveEntries s.entries (instancePath cluster ⟨project, old⟩)
        (instancePath cluster ⟨project, name⟩) with
      | none => exact ⟨h.owners, h.leases, h.entries⟩
      | some entries => exact ⟨h.owners, h.leases, rfl⟩
    | ended => exact h
  | deleted key =>
    cases stage with
    | owners =>
      have howners : forget c.owners key = unmarked (·.row) (forget s.owners key) := by
        rw [h.owners, forget, forget, unmarked_update]
        rfl
      exact ⟨howners, h.leases, h.entries⟩
    | leases =>
      have hleases : forget c.leases key = unmarked (·.lease) (forget s.leases key) := by
        rw [h.leases, forget, forget, unmarked_update]
        rfl
      exact ⟨h.owners, hleases, h.entries⟩
    | entries => exact ⟨h.owners, h.leases, congrArg (List.filter _) h.entries⟩
    | ended => exact h

namespace Succession

/-! ### What is under way -/

def named (s : Succession) : List (InstanceKey × ℕ) :=
  s.inventory.map (fun x => (x.key, x.of)) ++ s.pass.named ++ s.schedules.flatMap (·.named)

/-- The handler of an event on the name has not ended. -/
def underWay (s : Succession) (k : InstanceKey) : Bool :=
  s.handlers.any fun h => h.stage ≠ .ended && k ∈ h.event.keys

/-- An instance is created where neither an owner nor a lease is left under its name and nothing
under way names it, and a pass reads the cluster when no handler of an event on an absent name is
under way. -/
def orderly (s : Succession) : SuccessionAction → Bool
  | .incus (.created k _) _ =>
    (s.owners k).isNone && (s.leases k).isNone && !s.underWay k && s.named.all (·.1 ≠ k)
  | .collect _ =>
    s.handlers.all fun h => h.stage = .ended || h.event.keys.all fun k => (s.living.get k).isSome
  | _ => true

/-! ### Everything under the name is the instance's -/

structure Own (s : Succession) (k : InstanceKey) (n : ℕ) : Prop where
  living : s.living.get k = some n
  owner : ∀ r, s.owners k = some r → r.of = n
  lease : ∀ l, s.leases k = some l → l.of = n ∧ ∀ a, l.actedOf = some a → a = n
  named : ∀ m, (k, m) ∈ s.named → m = n
  handlers : ∀ h ∈ s.handlers, h.stage ≠ .ended → k ∈ h.event.keys →
    h.of = n ∧ ∃ subject, h.event = .created k subject

/-- This is so for every instance that was created under its name. -/
def Owned (s : Succession) : Prop := ∀ k n, s.made k = some n → s.Own k n

section Owned

variable {s s' : Succession}

/-- The handlers of `s'` are some of those of `s`, as far as they are under way. -/
def FewerHandlers (s s' : Succession) : Prop :=
  ∀ x ∈ s'.handlers, x.stage ≠ .ended →
    ∃ y ∈ s.handlers, y.stage ≠ .ended ∧ y.event = x.event ∧ y.of = x.of

theorem FewerHandlers.refl (h : s'.handlers = s.handlers) : FewerHandlers s s' := by
  intro x hx hstage
  exact ⟨x, h ▸ hx, hstage, rfl, rfl⟩

variable {k : InstanceKey}

theorem FewerHandlers.own (h : FewerHandlers s s') {n : ℕ} (hown : s.Own k n) :
    ∀ x ∈ s'.handlers, x.stage ≠ .ended → k ∈ x.event.keys →
      x.of = n ∧ ∃ subject, x.event = .created k subject := by
  intro x hx hstage hk
  obtain ⟨y, hy, hystage, hevent, hof⟩ := h x hx hstage
  rw [← hevent] at hk ⊢
  rw [← hof]
  exact hown.handlers y hy hystage hk

theorem Owned.frame (h : s.Owned) (hliving : s'.living = s.living) (hmade : s'.made = s.made)
    (hhandlers : FewerHandlers s s')
    (hnamed : ∀ k n, s.made k = some n → ∀ m, (k, m) ∈ s'.named → m = n)
    (howner : ∀ k n, s.made k = some n → ∀ r, s'.owners k = some r → s.owners k = some r ∨ r.of = n)
    (hlease : ∀ k n, s.made k = some n → ∀ l, s'.leases k = some l → s.leases k = some l ∨
      l.of = n ∧ ∀ a, l.actedOf = some a → a = n) : s'.Owned := by
  intro k n hk
  rw [hmade] at hk
  have hown := h k n hk
  refine ⟨hliving ▸ hown.living, fun r hr => ?_, fun l hl => ?_, hnamed k n hk, hhandlers.own hown⟩
  · rcases howner k n hk r hr with hold | hof
    · exact hown.owner r hold
    · exact hof
  · rcases hlease k n hk l hl with hold | hof
    · exact hown.lease l hold
    · exact hof

theorem Owned.named_of_subset (h : s.Owned) (hsub : ∀ x ∈ s'.named, x ∈ s.named) :
    ∀ k n, s.made k = some n → ∀ m, (k, m) ∈ s'.named → m = n := by
  intro k n hk m hm
  exact (h k n hk).named m (hsub _ hm)

/-! ### Events -/

variable {cluster : Name}

theorem step_incus
    (hs : s.step cluster (.incus e delivered) = some s') :
    s.possible e = true ∧ s' = { (s.happen e).1 with
      handlers := if delivered then s.handlers ++
        [⟨e, (s.happen e).2, .owners⟩] else s.handlers } := by
  dsimp only [step] at hs
  by_cases hpossible : s.possible e = true
  · rw [if_pos hpossible] at hs
    refine ⟨hpossible, ?_⟩
    rw [← some.inj hs]
    cases e <;> rfl
  · rw [if_neg hpossible] at hs
    cases hs

theorem happen_other (hpossible : s.possible e = true)
    (hk : k ∉ e.keys) : (s.happen e).1.living.get k = s.living.get k ∧
      (s.happen e).1.made k = s.made k ∧ (s.happen e).1.absentTo k = s.absentTo k := by
  cases e with
  | created key subject =>
    have hne : k ≠ key := fun h => hk (mem_singleton.mpr h)
    refine ⟨?_, update_of_ne hne _ _, rfl⟩
    show OrdMap.get (s.living ++ [(key, s.born)]) k = _
    rw [OrdMap.get_append, OrdMap.get_cons, if_neg (Ne.symm hne), OrdMap.get_nil, Option.or_none]
  | renamed project old name =>
    have hold : k ≠ ⟨project, old⟩ := fun h => hk (h ▸ mem_cons_self)
    have hnew : k ≠ ⟨project, name⟩ := fun h => hk (h ▸ mem_cons_of_mem _ mem_cons_self)
    obtain ⟨-, hfree⟩ := Bool.and_eq_true_iff.mp hpossible
    refine ⟨?_, update_of_ne hold _ _, update_of_ne hold _ _⟩
    exact (OrdMap.get_rename (isNone_iff_eq_none.mp hfree) _ k).trans
      ((if_neg hnew).trans (if_neg hold))
  | deleted key =>
    have hne : k ≠ key := fun h => hk (mem_singleton.mpr h)
    refine ⟨?_, update_of_ne hne _ _, update_of_ne hne _ _⟩
    exact (OrdMap.get_erase _ _ _).trans (if_neg hne)

/-- After an event, only a create leaves its name to an instance that was created there, and only a
rename or a delete leaves a name absent. -/
theorem happen_named (h : s.Owned) (hpossible : s.possible e = true) (hk : k ∈ e.keys) :
    (∃ subject, e = .created k subject ∧ (s.happen e).1.living.get k = some s.born ∧
        (s.happen e).1.made k = some s.born ∧ s.living.get k = none) ∨
      (s.happen e).1.made k = none ∧
        ((s.happen e).1.living.get k = none → (s.happen e).1.absentTo k = []) := by
  cases e with
  | created key subject =>
    obtain rfl := mem_singleton.mp hk
    have hnone : s.living.get k = none := isNone_iff_eq_none.mp hpossible
    refine .inl ⟨subject, rfl, ?_, update_self _ _ _, hnone⟩
    show OrdMap.get (s.living ++ [(k, s.born)]) k = _
    rw [OrdMap.get_append, hnone, OrdMap.get_cons, if_pos rfl]
    rfl
  | renamed project old name =>
    obtain ⟨hold, hfree⟩ := Bool.and_eq_true_iff.mp hpossible
    have hfree := isNone_iff_eq_none.mp hfree
    rcases mem_cons.mp hk with rfl | hk
    · exact .inr ⟨update_self _ _ _, fun _ => update_self _ _ _⟩
    · obtain rfl := mem_singleton.mp hk
      have hmade : s.made ⟨project, name⟩ = none := by
        cases hm : s.made ⟨project, name⟩ with
        | none => rfl
        | some n =>
          have hliving := (h _ n hm).living
          rw [hfree] at hliving
          cases hliving
      have hliving : (s.happen (.renamed project old name)).1.living.get ⟨project, name⟩ =
          s.living.get ⟨project, old⟩ :=
        (OrdMap.get_rename hfree _ _).trans (if_pos rfl)
      refine .inr ⟨?_, fun hnone => ?_⟩
      · show update s.made _ none _ = none
        rw [update_apply, hmade, ite_self]
      · rw [hliving] at hnone
        rw [hnone] at hold
        cases hold
  | deleted key =>
    obtain rfl := mem_singleton.mp hk
    exact .inr ⟨update_self _ _ _, fun _ => update_self _ _ _⟩

theorem mem_handlers_incus {of : ℕ} {x : EventHandler}
    (hx : x ∈ if delivered then s.handlers ++ [⟨e, of, .owners⟩] else s.handlers) :
    x ∈ s.handlers ∨ x = ⟨e, of, .owners⟩ := by
  split_ifs at hx
  · exact (mem_append.mp hx).imp_right mem_singleton.mp
  · exact .inl hx

theorem named_happen (e : LifecycleEvent) (handlers : List EventHandler) :
    named { (s.happen e).1 with handlers := handlers } = s.named := by
  cases e <;> rfl

theorem underWay_eq_false (h : s.underWay k = false) :
    ∀ x ∈ s.handlers, x.stage ≠ .ended → k ∉ x.event.keys := by
  intro x hx hstage hk
  rw [underWay, any_eq_false] at h
  apply h x hx
  rw [Bool.and_eq_true, decide_eq_true_eq, decide_eq_true_eq]
  exact ⟨hstage, hk⟩

theorem Owned.incus (h : s.Owned)
    (hok : s.orderly (.incus e delivered) = true)
    (hs : s.step cluster (.incus e delivered) = some s') : s'.Owned := by
  obtain ⟨hpossible, rfl⟩ := step_incus hs
  have howners : (s.happen e).1.owners = s.owners := by cases e <;> rfl
  have hleases : (s.happen e).1.leases = s.leases := by cases e <;> rfl
  intro k n hmade
  by_cases hk : k ∈ e.keys
  · rcases happen_named h hpossible hk with ⟨subject, rfl, hliving, hborn, -⟩ | ⟨hnone, -⟩
    · -- Nothing was left under the name, and nothing that is under way names it.
      obtain rfl := some.inj (hborn.symm.trans hmade)
      simp only [orderly, Bool.and_eq_true, Bool.not_eq_true', all_eq_true,
        decide_eq_true_eq] at hok
      obtain ⟨⟨⟨howner, hlease⟩, hway⟩, hnamed⟩ := hok
      refine ⟨hliving, fun r hr => ?_, fun l hl => ?_, fun m hm => ?_, fun x hx hstage hkx => ?_⟩
      · rw [howners, isNone_iff_eq_none.mp howner] at hr
        cases hr
      · rw [hleases, isNone_iff_eq_none.mp hlease] at hl
        cases hl
      · rw [named_happen] at hm
        exact absurd rfl (hnamed _ hm)
      · rcases mem_handlers_incus hx with hold | rfl
        · exact absurd hkx (underWay_eq_false hway x hold hstage)
        · exact ⟨rfl, subject, rfl⟩
    · rw [hnone] at hmade
      cases hmade
  · obtain ⟨hliving, hsame, -⟩ := happen_other hpossible hk
    have hown := h k n (hsame.symm.trans hmade)
    refine ⟨hliving.trans hown.living, fun r hr => hown.owner r (howners ▸ hr),
      fun l hl => hown.lease l (hleases ▸ hl), fun m hm => ?_, fun x hx hstage hkx => ?_⟩
    · rw [named_happen] at hm
      exact hown.named m hm
    · rcases mem_handlers_incus hx with hold | rfl
      · exact hown.handlers x hold hstage hkx
      · exact absurd hkx hk

/-! ### Handlers -/

def Apart (e : LifecycleEvent) (k : InstanceKey) : Prop := k ∉ e.keys ∨ ∃ subject,
    e = .created k subject

theorem Apart.not_renamed {project old name : Name}
    (h : Apart (.renamed project old name) k) : k ≠ ⟨project, old⟩ ∧ k ≠ ⟨project, name⟩ := by
  rcases h with h | ⟨subject, heq⟩
  · exact ⟨fun hk => h (hk ▸ mem_cons_self), fun hk => h (hk ▸ mem_cons_of_mem _ mem_cons_self)⟩
  · cases heq

theorem Apart.not_deleted {key k : InstanceKey} (h : Apart (.deleted key) k) : k ≠ key := by
  rcases h with h | ⟨subject, heq⟩
  · exact fun hk => h (mem_singleton.mpr hk)
  · cases heq

/-- What one statement of a handler can do: nothing to the names it is apart from, but for an owner
that a create records. -/
structure Handled (cluster : Name) (s s' : Succession) (h : EventHandler) : Prop where
  living : s'.living = s.living
  made : s'.made = s.made
  absentTo : s'.absentTo = s.absentTo
  inventory : s'.inventory = s.inventory
  pass : s'.pass = s.pass
  schedules : s'.schedules = s.schedules
  passes : s'.passes = s.passes
  sweptBy : s'.sweptBy = s.sweptBy
  handlers : FewerHandlers s s'
  owners : ∀ k, Apart h.event k → ∀ r, s'.owners k = some r →
    s.owners k = some r ∨ (k ∈ h.event.keys ∧ r.of = h.of)
  leases : ∀ k, Apart h.event k → s'.leases k = s.leases k
  entries : Exact cluster s.entries → Exact cluster s'.entries ∧
    ∀ k, Apart h.event k → ∀ e' ∈ s'.entries, entriesUnder (instancePath cluster k) e' = true →
      ∃ e ∈ s.entries, e.id = e'.id ∧ entriesUnder (instancePath cluster k) e = true

theorem fewerHandlers_reach {t : Succession} {i : ℕ} {h : EventHandler}
    (hi : s.handlers[i]? = some h) (hstage : h.stage ≠ .ended) (ht : t.handlers = s.handlers) :
    FewerHandlers s (t.reach i h stage) := by
  intro x hx hx'
  obtain ⟨j, hj⟩ := List.getElem?_of_mem hx
  rcases getElem?_set_cases hj with ⟨-, rfl⟩ | ⟨-, hold⟩
  · exact ⟨h, mem_of_getElem? hi, hstage, rfl, rfl⟩
  · rw [ht] at hold
    exact ⟨x, mem_of_getElem? hold, hx', rfl, rfl⟩

section Handle

variable {cluster : Name} {i : ℕ} {h : EventHandler}

theorem handled_of_tables {owners : InstanceKey → Option (Marked Owner)}
    {leases : InstanceKey → Option MarkedLease} (hi : s.handlers[i]? = some h)
    (hstage : h.stage ≠ .ended)
    (howners : ∀ k, Apart h.event k → ∀ r, owners k = some r →
      s.owners k = some r ∨ (k ∈ h.event.keys ∧ r.of = h.of))
    (hleases : ∀ k, Apart h.event k → leases k = s.leases k) :
    Handled cluster s ({ s with owners := owners, leases := leases }.reach i h stage) h :=
  ⟨rfl, rfl, rfl, rfl, rfl, rfl, rfl, rfl, fewerHandlers_reach hi hstage rfl, howners, hleases,
    fun hexact => ⟨hexact, fun _ _ e he hu => ⟨e, he, rfl, hu⟩⟩⟩

theorem handled_of_entries {entries : List EntryRow} (hi : s.handlers[i]? = some h)
    (hstage : h.stage ≠ .ended)
    (hentries : Exact cluster s.entries → Exact cluster entries ∧
      ∀ k, Apart h.event k → ∀ e' ∈ entries, entriesUnder (instancePath cluster k) e' = true →
        ∃ e ∈ s.entries, e.id = e'.id ∧ entriesUnder (instancePath cluster k) e = true) :
    Handled cluster s ({ s with entries := entries }.reach i h stage) h :=
  ⟨rfl, rfl, rfl, rfl, rfl, rfl, rfl, rfl, fewerHandlers_reach hi hstage rfl,
    fun _ _ _ hr => .inl hr, fun _ _ => rfl, hentries⟩

theorem onLifecycle_handled (hi : s.handlers[i]? = some h) (hstage : h.stage ≠ .ended) :
    Handled cluster s (s.onLifecycle cluster i h) h := by
  have hnothing : ∀ stage, Handled cluster s (s.reach i h stage) h := fun stage =>
    handled_of_tables hi hstage (fun _ _ _ hr => .inl hr) fun _ _ => rfl
  have hunchanged : Handled cluster s s h :=
    ⟨rfl, rfl, rfl, rfl, rfl, rfl, rfl, rfl, FewerHandlers.refl rfl, fun _ _ _ hr => .inl hr,
      fun _ _ => rfl, fun hexact => ⟨hexact, fun _ _ e he hu => ⟨e, he, rfl, hu⟩⟩⟩
  obtain ⟨event, of, at_⟩ := h
  unfold onLifecycle
  cases event with
  | created key subject =>
    cases at_ with
    | owners =>
      cases subject with
      | none => exact hnothing .ended
      | some subject =>
        refine handled_of_tables hi hstage (fun k _ r hr => ?_) fun _ _ => rfl
        exact (recordOwnerOf_cases hr).imp_right fun h => ⟨mem_singleton.mpr h.1, h.2⟩
    | leases => cases subject <;> exact hunchanged
    | entries => cases subject <;> exact hunchanged
    | ended => exact absurd rfl hstage
  | renamed project old name =>
    cases at_ with
    | owners =>
      dsimp only
      cases hrekey : rekey s.owners ⟨project, old⟩ ⟨project, name⟩ with
      | none => exact hnothing .ended
      | some owners =>
        refine handled_of_tables hi hstage (fun k hk r hr => .inl ?_) fun _ _ => rfl
        rwa [rekey_of_ne hrekey hk.not_renamed.1 hk.not_renamed.2] at hr
    | leases =>
      dsimp only
      cases hrekey : rekey s.leases ⟨project, old⟩ ⟨project, name⟩ with
      | none => exact hnothing .ended
      | some leases =>
        refine handled_of_tables hi hstage (fun _ _ _ hr => .inl hr) fun k hk => ?_
        exact rekey_of_ne hrekey hk.not_renamed.1 hk.not_renamed.2
    | entries =>
      dsimp only
      cases hmove : moveEntries s.entries (instancePath cluster ⟨project, old⟩)
          (instancePath cluster ⟨project, name⟩) with
      | none => exact hnothing .ended
      | some entries =>
        refine handled_of_entries hi hstage fun hexact => ?_
        obtain ⟨hexact', hunder⟩ := hexact.moveEntries hmove
        exact ⟨hexact', fun k hk e' he' hu => hunder e' he' k hk.not_renamed.2 hu⟩
    | ended => exact absurd rfl hstage
  | deleted key =>
    cases at_ with
    | owners =>
      refine handled_of_tables hi hstage (fun k hk r hr => .inl ?_) fun _ _ => rfl
      rwa [forget_apply, if_neg hk.not_deleted] at hr
    | leases =>
      refine handled_of_tables hi hstage (fun _ _ _ hr => .inl hr) fun k hk => ?_
      rw [forget_apply, if_neg hk.not_deleted]
    | entries =>
      refine handled_of_entries hi hstage fun hexact => ?_
      exact ⟨hexact.filter _, fun k _ e' he' hu => ⟨e', mem_of_mem_filter he', rfl, hu⟩⟩
    | ended => exact absurd rfl hstage

theorem Own.apart {n : ℕ} (hown : s.Own k n) (hi : s.handlers[i]? = some h)
    (hstage : h.stage ≠ .ended) : Apart h.event k := by
  by_cases hk : k ∈ h.event.keys
  · exact .inr (hown.handlers h (mem_of_getElem? hi) hstage hk).2
  · exact .inl hk

theorem named_eq (hinventory : s'.inventory = s.inventory) (hpass : s'.pass = s.pass)
    (hschedules : s'.schedules = s.schedules) : s'.named = s.named := by
  unfold named
  rw [hinventory, hpass, hschedules]

theorem Owned.handle (hs : s.Owned) (hi : s.handlers[i]? = some h) (hstage : h.stage ≠ .ended)
    (hhandled : Handled cluster s s' h) : s'.Owned := by
  refine hs.frame hhandled.living hhandled.made hhandled.handlers ?_ ?_ ?_
  · refine hs.named_of_subset fun x hx => ?_
    rwa [named_eq hhandled.inventory hhandled.pass hhandled.schedules] at hx
  · intro k n hk r hr
    -- Where an instance was created under the name, only its own create is still to record an owner.
    have hown := hs k n hk
    rcases hhandled.owners k (hown.apart hi hstage) r hr with hold | ⟨hkeys, hof⟩
    · exact .inl hold
    · exact .inr (hof.trans (hown.handlers h (mem_of_getElem? hi) hstage hkeys).1)
  · intro k n hk l hl
    rw [hhandled.leases k ((hs k n hk).apart hi hstage)] at hl
    exact .inl hl

end Handle

/-! ### Passes -/

variable {x : InstanceKey × ℕ}

theorem mem_named : x ∈ s.named ↔
    x ∈ s.inventory.map (fun x => (x.key, x.of)) ∨ x ∈ s.pass.named ∨ ∃ p ∈ s.schedules,
      x ∈ p.named := by
  simp only [named, mem_append, mem_flatMap, or_assoc]

theorem mem_named_inventory (hx : x ∈ s.inventory.map fun x => (x.key, x.of)) :
    x ∈ s.named := mem_named.mpr (.inl hx)

theorem mem_named_pass (hx : x ∈ s.pass.named) : x ∈ s.named :=
  mem_named.mpr (.inr (.inl hx))

theorem mem_named_schedule {i : ℕ} {p : LeaseSchedule} (hp : s.schedules[i]? = some p)
    (hx : x ∈ p.named) : x ∈ s.named :=
  mem_named.mpr (.inr (.inr ⟨p, mem_of_getElem? hp, hx⟩))

theorem mem_named_goOn {t : Succession} (hschedules : t.schedules = s.schedules)
    (hinventory : ∀ x ∈ t.inventory.map (fun x => (x.key, x.of)), x ∈ s.named)
    (hpass : ∀ x ∈ t.pass.named, x ∈ s.named) : ∀ x ∈ t.named, x ∈ s.named := by
  intro x hx
  rcases mem_named.mp hx with hx | hx | hx
  · exact hinventory x hx
  · exact hpass x hx
  · rw [hschedules] at hx
    exact mem_named.mpr (.inr (.inr hx))

theorem mem_named_setSchedule {t : Succession} {i : ℕ} {p : LeaseSchedule} {rest : ScheduleRest}
    (hinventory : t.inventory = s.inventory) (hpass : t.pass = s.pass)
    (hschedules : t.schedules = s.schedules.set i { p with rest := rest })
    (hrest : ∀ x ∈ LeaseSchedule.named { p with rest := rest }, x ∈ s.named) :
    ∀ x ∈ t.named, x ∈ s.named := by
  intro x hx
  rcases mem_named.mp hx with hx | hx | ⟨q, hq, hxq⟩
  · exact mem_named_inventory (hinventory ▸ hx)
  · exact mem_named_pass (hpass ▸ hx)
  · rw [hschedules] at hq
    obtain ⟨j, hj⟩ := List.getElem?_of_mem hq
    rcases getElem?_set_cases hj with ⟨-, rfl⟩ | ⟨-, hold⟩
    · exact hrest x hxq
    · exact mem_named_schedule hold hxq

theorem unleased_named (now : Int) (tenantOf : Name → Option Uuid)
    (policyOf : Uuid → Option LeasePolicy)
    {h : Handout} (hh : h ∈ s.unleased now tenantOf policyOf) : (h.key, h.of) ∈ s.named := by
  obtain ⟨x, hx, hread⟩ := List.mem_filterMap.mp hh
  obtain ⟨tenant, -, hread⟩ := bind_eq_some_iff.mp hread
  obtain ⟨policy, -, hread⟩ := bind_eq_some_iff.mp hread
  split_ifs at hread
  rw [← some.inj hread]
  exact mem_named_inventory (mem_map_of_mem hx)

theorem ended_named (now : Int) (policyOf : Uuid → Option LeasePolicy)
    (hx : x ∈ s.ended now policyOf) : x ∈ s.named := by
  obtain ⟨y, hy, hread⟩ := List.mem_filterMap.mp hx
  obtain ⟨marked, -, hread⟩ := bind_eq_some_iff.mp hread
  obtain ⟨policy, -, hread⟩ := bind_eq_some_iff.mp hread
  obtain ⟨expiresAt, -, hread⟩ := bind_eq_some_iff.mp hread
  split_ifs at hread
  rw [← some.inj hread]
  exact mem_named_inventory (mem_map_of_mem hy)

theorem Owned.read (h : s.Owned) (hliving : s'.living = s.living) (hmade : s'.made = s.made)
    (hhandlers : s'.handlers = s.handlers) (howners : s'.owners = s.owners)
    (hleases : s'.leases = s.leases)
    (hnamed : ∀ k n, s.made k = some n → ∀ m, (k, m) ∈ s'.named → m = n) : s'.Owned := by
  refine h.frame hliving hmade (.refl hhandlers) hnamed ?_ ?_
  · intro k n hk r hr
    exact .inl (howners ▸ hr)
  · intro k n hk l hl
    exact .inl (hleases ▸ hl)

theorem onSchedule_cases {i : ℕ} {f : LeaseSchedule → Option Succession}
    (hs : s.onSchedule i f = some s') : ∃ p, s.schedules[i]? = some p ∧ f p = some s' :=
  bind_eq_some_iff.mp hs

theorem Owned.collect {running : InstanceKey → Bool} (h : s.Owned)
    (hs : s.step cluster (.collect running) = some s') : s'.Owned := by
  dsimp only [step] at hs
  split at hs
  · obtain rfl := some.inj hs
    refine h.read rfl rfl rfl rfl rfl fun k n hk m hm => ?_
    have hown := h k n hk
    rcases mem_named.mp hm with hm | hm | hm
    · exact hown.named m (mem_named_inventory hm)
    · -- The snapshot has who lives there.
      obtain ⟨x, hx, heq⟩ := List.mem_map.mp hm
      obtain ⟨y, -, rfl⟩ := List.mem_map.mp hx
      obtain ⟨rfl, rfl⟩ := Prod.mk.inj heq
      show (s.living.get y.1).getD 0 = n
      rw [hown.living]
      rfl
    · exact hown.named m (mem_named.mpr (.inr (.inr hm)))
  · cases hs

theorem Owned.backfill {owner : Option Uuid} (h : s.Owned)
    (hs : s.step cluster (.backfill owner) = some s') : s'.Owned := by
  have hkeep : ∀ x ∈ s.inventory.map (fun x => (x.key, x.of)), x ∈ s.named := fun _ =>
    mem_named_inventory
  dsimp only [step] at hs
  split at hs
  · rename_i no x orphans hpass
    have hmem : ∀ y ∈ x :: orphans, y ∈ s.named := by
      intro y hy
      apply mem_named_pass
      rw [hpass]
      exact hy
    have hrest : ∀ y ∈ orphans, y ∈ s.named := fun y hy => hmem y (mem_cons_of_mem x hy)
    cases owner with
    | some id =>
      obtain rfl := some.inj hs
      refine h.frame rfl rfl (.refl rfl)
        (h.named_of_subset (mem_named_goOn rfl hkeep hrest)) ?_
        fun _ _ _ l hl => .inl hl
      intro k n hk r hr
      -- What it fills in is for the instance that was listed, which is the one that is there.
      rcases recordOwnerOf_cases hr with hold | ⟨rfl, hof⟩
      · exact .inl hold
      · exact .inr (hof.trans ((h _ n hk).named x.2 (hmem x mem_cons_self)))
    | none =>
      obtain rfl := some.inj hs
      exact h.read rfl rfl rfl rfl rfl (h.named_of_subset (mem_named_goOn rfl hkeep hrest))
  · obtain rfl := some.inj hs
    exact h.read rfl rfl rfl rfl rfl (h.named_of_subset (mem_named_goOn rfl hkeep nofun))
  · cases hs

variable {a : SuccessionAction}

theorem Owned.pass (h : s.Owned)
    (ha : (match a with
      | .applySnapshot _ | .sweep | .deleteSwept | .orphans _ | .fail => true
      | _ => false) = true) (hs : s.step cluster a = some s') : s'.Owned := by
  -- They only pass on what was read.
  have hkeep : ∀ x ∈ s.inventory.map (fun x => (x.key, x.of)), x ∈ s.named := fun _ =>
    mem_named_inventory
  cases a with
  | applySnapshot now =>
    dsimp only [step] at hs
    split at hs
    · rename_i no snapshot hpass
      obtain rfl := some.inj hs
      refine h.read rfl rfl rfl rfl rfl
        (h.named_of_subset (mem_named_goOn rfl (fun x hx => ?_) nofun))
      apply mem_named_pass
      rw [hpass]
      rw [map_map] at hx
      exact hx
    · cases hs
  | sweep =>
    dsimp only [step] at hs
    split at hs
    · obtain rfl := some.inj hs
      exact h.read rfl rfl rfl rfl rfl (h.named_of_subset (mem_named_goOn rfl hkeep nofun))
    · cases hs
  | deleteSwept =>
    dsimp only [step] at hs
    split at hs
    · obtain rfl := some.inj hs
      exact h.read rfl rfl rfl rfl rfl (h.named_of_subset (mem_named_goOn rfl hkeep nofun))
    · cases hs
  | orphans placed =>
    dsimp only [step] at hs
    split at hs
    · obtain rfl := some.inj hs
      refine h.read rfl rfl rfl rfl rfl (h.named_of_subset (mem_named_goOn rfl hkeep fun x hx =>
        ?_))
      obtain ⟨y, hy, rfl⟩ := List.mem_map.mp hx
      exact mem_named_inventory (mem_map_of_mem (mem_of_mem_filter hy))
    · cases hs
  | fail =>
    obtain rfl := some.inj hs
    exact h.read rfl rfl rfl rfl rfl (h.named_of_subset (mem_named_goOn rfl hkeep nofun))
  | _ => cases ha

theorem Owned.handOut {i : ℕ} (h : s.Owned)
    (hs : s.step cluster (.handOut i) = some s') : s'.Owned := by
  obtain ⟨p, hp, hs⟩ := onSchedule_cases hs
  obtain ⟨now, rest⟩ := p
  dsimp only at hs
  split at hs
  · rename_i x rest
    have hx : (x.key, x.of) ∈ s.named := mem_named_schedule hp mem_cons_self
    have hnamed : ∀ t : Succession, t.inventory = s.inventory → t.pass = s.pass →
        t.schedules = s.schedules.set i ⟨now, .handingOut rest⟩ → ∀ y ∈ t.named, y ∈ s.named := by
      intro t hinventory hpass hschedules
      refine mem_named_setSchedule (p := ⟨now, .handingOut (x :: rest)⟩)
        hinventory hpass hschedules ?_
      exact fun y hy => mem_named_schedule hp (mem_cons_of_mem _ hy)
    split_ifs at hs
    · obtain rfl := some.inj hs
      refine h.frame rfl rfl (.refl rfl) (h.named_of_subset (hnamed _ rfl rfl rfl))
        (fun _ _ _ r hr => .inl hr) fun k n hk l hl => ?_
      change update s.leases x.key (some ⟨x.lease, x.of, none⟩) k = some l at hl
      rw [update_apply] at hl
      split_ifs at hl with hkey
      · rw [← some.inj hl]
        exact .inr ⟨(h k n hk).named x.of (hkey ▸ hx), nofun⟩
      · exact .inl hl
    · obtain rfl := some.inj hs
      exact h.read rfl rfl rfl rfl rfl (h.named_of_subset (hnamed _ rfl rfl rfl))
  · cases hs

theorem Owned.markActed {i : ℕ} {queued : Bool} (h : s.Owned)
    (hs : s.step cluster (.markActed i queued) = some s') : s'.Owned := by
  obtain ⟨p, hp, hs⟩ := onSchedule_cases hs
  obtain ⟨now, rest⟩ := p
  dsimp only at hs
  split at hs
  · rename_i x rest
    have hx : x ∈ s.named := mem_named_schedule hp mem_cons_self
    have hnamed : ∀ t : Succession, t.inventory = s.inventory → t.pass = s.pass →
        t.schedules = s.schedules.set i ⟨now, .marking rest⟩ → ∀ y ∈ t.named, y ∈ s.named := by
      intro t hinventory hpass hschedules
      refine mem_named_setSchedule (p := ⟨now, .marking (x :: rest)⟩) hinventory hpass hschedules ?_
      exact fun y hy => mem_named_schedule hp (mem_cons_of_mem _ hy)
    split_ifs at hs
    · obtain rfl := some.inj hs
      refine h.frame rfl rfl (.refl rfl) (h.named_of_subset (hnamed _ rfl rfl rfl))
        (fun _ _ _ r hr => .inl hr) fun k n hk l hl => ?_
      change update s.leases x.1 _ k = some l at hl
      rw [update_apply] at hl
      split_ifs at hl with hkey
      · -- The row stays whose it is; its acted time is the pass's.
        obtain ⟨old, hold, rfl⟩ := map_eq_some_iff.mp hl
        have hown := h k n hk
        refine .inr ⟨(hown.lease old (hkey ▸ hold)).1, fun a ha => ?_⟩
        rw [← some.inj ha]
        exact hown.named x.2 (hkey ▸ hx)
      · exact .inl hl
    · obtain rfl := some.inj hs
      exact h.read rfl rfl rfl rfl rfl (h.named_of_subset (hnamed _ rfl rfl rfl))
  · cases hs

theorem Owned.schedule (h : s.Owned)
    (ha : (match a with
      | .scheduleLeases _ _ _ | .selectEnded _ _ | .abandon _ => true
      | _ => false) = true) (hs : s.step cluster a = some s') : s'.Owned := by
  cases a with
  | scheduleLeases now tenantOf policyOf =>
    obtain rfl := some.inj hs
    refine h.read rfl rfl rfl rfl rfl (h.named_of_subset fun y hy => ?_)
    rcases mem_named.mp hy with hy | hy | ⟨p, hp, hyp⟩
    · exact mem_named_inventory hy
    · exact mem_named_pass hy
    · rcases mem_append.mp hp with hp | hp
      · exact mem_named.mpr (.inr (.inr ⟨p, hp, hyp⟩))
      · obtain rfl := mem_singleton.mp hp
        obtain ⟨x, hx, rfl⟩ := List.mem_map.mp hyp
        exact unleased_named now tenantOf policyOf hx
  | selectEnded i policyOf =>
    obtain ⟨p, hp, hs⟩ := onSchedule_cases hs
    split at hs
    · obtain rfl := some.inj hs
      refine h.read rfl rfl rfl rfl rfl (h.named_of_subset ?_)
      exact mem_named_setSchedule rfl rfl rfl fun y hy => ended_named p.now policyOf hy
    · cases hs
  | abandon i =>
    obtain ⟨p, hp, hs⟩ := onSchedule_cases hs
    obtain rfl := some.inj hs
    refine h.read rfl rfl rfl rfl rfl (h.named_of_subset ?_)
    exact mem_named_setSchedule rfl rfl rfl fun y hy => absurd hy not_mem_nil
  | _ => cases ha

theorem step_handle {i : ℕ} (hs : s.step cluster (.handle i) = some s') :
    ∃ h, s.handlers[i]? = some h ∧ h.stage ≠ .ended ∧ s' = s.onLifecycle cluster i h := by
  dsimp only [step] at hs
  split at hs
  · rename_i h hi
    split_ifs at hs with hstage
    exact ⟨h, hi, hstage, (some.inj hs).symm⟩
  · cases hs

theorem Owned.step (h : s.Owned) (hok : s.orderly a = true)
    (hs : s.step cluster a = some s') : s'.Owned := by
  cases a with
  | incus e delivered => exact h.incus hok hs
  | handle i =>
    obtain ⟨x, hi, hstage, rfl⟩ := step_handle hs
    exact h.handle hi hstage (onLifecycle_handled hi hstage)
  | collect running => exact h.collect hs
  | applySnapshot now => exact h.pass rfl hs
  | sweep => exact h.pass rfl hs
  | deleteSwept => exact h.pass rfl hs
  | orphans placed => exact h.pass rfl hs
  | backfill owner => exact h.backfill hs
  | fail => exact h.pass rfl hs
  | scheduleLeases now tenantOf policyOf => exact h.schedule rfl hs
  | handOut i => exact h.handOut hs
  | selectEnded i policyOf => exact h.schedule rfl hs
  | markActed i queued => exact h.markActed hs
  | abandon i => exact h.schedule rfl hs

end Owned

/-! ### Entries of a name that a pass found absent -/

def passNo (s : Succession) : Option ℕ :=
  match s.pass with
  | .idle => none
  | .collected no _ | .applied no | .sweeping no _ | .swept no | .filling no _ => some no

/-- The name is free, or the instance under it was created there. -/
def Waits (s : Succession) (k : InstanceKey) : Prop := s.living.get k = none ∨ ∃ n,
    s.made k = some n

/-- Pass `p`, which found the name absent, will leave no entry there. -/
def Clears (cluster : Name) (s : Succession) (k : InstanceKey) (p : ℕ) : Prop :=
  match s.pass with
  | .collected no snapshot => no = p → k ∉ snapshot.map (·.1)
  | .applied no => no = p → k ∉ s.inventory.map (·.key)
  | .sweeping no gone => no = p → ∀ e ∈ s.entries,
      entriesUnder (instancePath cluster k) e = true → e.id ∈ gone
  | _ => True

/-- What passes saw absent is swept before its name is used again. -/
structure Swept (cluster : Name) (s : Succession) : Prop where
  exact : Exact cluster s.entries
  quiet : ∀ k, s.living.get k = none → s.absentTo k ≠ [] →
    ∀ h ∈ s.handlers, h.stage ≠ .ended → k ∉ h.event.keys
  absentTo_lt : ∀ k, ∀ p ∈ s.absentTo k, p < s.passes
  sweptBy_lt : ∀ p ∈ s.sweptBy, p < s.passes
  passNo_lt : ∀ p, s.passNo = some p → p < s.passes
  clean : ∀ k, s.Waits k → ∀ p ∈ s.absentTo k, p ∈ s.sweptBy →
    ∀ e ∈ s.entries, entriesUnder (instancePath cluster k) e = false
  clears : ∀ k, s.Waits k → ∀ p ∈ s.absentTo k, s.Clears cluster k p

section Swept

variable {cluster : Name} {s s' : Succession}

theorem Swept.read (h : s.Swept cluster) (hliving : s'.living = s.living) (hmade : s'.made = s.made)
    (habsent : s'.absentTo = s.absentTo) (hhandlers : s'.handlers = s.handlers)
    (hentries : s'.entries = s.entries) (hpasses : s'.passes = s.passes)
    (hsweptBy : s'.sweptBy = s.sweptBy) (hno : ∀ p, s'.passNo = some p → s.passNo = some p)
    (hclears : ∀ k p, p ∈ s.absentTo k → s.Waits k → s.Clears cluster k p → s'.Clears cluster k p) :
    s'.Swept cluster := by
  have hwaits : ∀ k, s'.Waits k → s.Waits k := by
    intro k hk
    unfold Waits at hk ⊢
    rwa [hliving, hmade] at hk
  refine ⟨hentries ▸ h.exact, ?_, ?_, ?_, fun p hp => hpasses ▸ h.passNo_lt p (hno p hp), ?_, ?_⟩
  · intro k hk hne
    rw [hhandlers]
    exact h.quiet k (hliving ▸ hk) (habsent ▸ hne)
  · intro k p hp
    rw [hpasses]
    exact h.absentTo_lt k p (habsent ▸ hp)
  · intro p hp
    rw [hpasses]
    exact h.sweptBy_lt p (hsweptBy ▸ hp)
  · intro k hk p hp hswept
    rw [hentries]
    exact h.clean k (hwaits k hk) p (habsent ▸ hp) (hsweptBy ▸ hswept)
  · intro k hk p hp
    rw [habsent] at hp
    exact hclears k p hp (hwaits k hk) (h.clears k (hwaits k hk) p hp)

theorem waits_of_happen (howned : s.Owned) (hpossible : s.possible e = true)
    (hk : (s.happen e).1.Waits k) {p : ℕ} (hp : p ∈ (s.happen e).1.absentTo k) :
    s.Waits k ∧ p ∈ s.absentTo k := by
  by_cases hkeys : k ∈ e.keys
  · rcases happen_named howned hpossible hkeys with ⟨subject, rfl, -, -, hnone⟩ | ⟨hmade, habsent⟩
    · exact ⟨.inl hnone, hp⟩
    · rcases hk with hnone | ⟨n, hn⟩
      · rw [habsent hnone] at hp
        cases hp
      · rw [hmade] at hn
        cases hn
  · obtain ⟨hliving, hmade, habsent⟩ := happen_other hpossible hkeys
    unfold Waits at hk ⊢
    rw [hliving, hmade] at hk
    exact ⟨hk, habsent ▸ hp⟩

theorem mem_absentTo_happen (e : LifecycleEvent) {p : ℕ}
    (hp : p ∈ (s.happen e).1.absentTo k) : p ∈ s.absentTo k := by
  have hupdate : ∀ k', p ∈ update s.absentTo k' [] k → p ∈ s.absentTo k := by
    intro k' hp
    rw [update_apply] at hp
    split_ifs at hp
    · cases hp
    · exact hp
  cases e with
  | created key subject => exact hp
  | renamed project old name => exact hupdate _ hp
  | deleted key => exact hupdate _ hp

theorem Swept.incus (h : s.Swept cluster) (howned : s.Owned)
    (hs : s.step cluster (.incus e delivered) = some s') : s'.Swept cluster := by
  obtain ⟨hpossible, rfl⟩ := step_incus hs
  have hentries : (s.happen e).1.entries = s.entries := by cases e <;> rfl
  have hpasses : (s.happen e).1.passes = s.passes := by cases e <;> rfl
  have hsweptBy : (s.happen e).1.sweptBy = s.sweptBy := by cases e <;> rfl
  have hpass : (s.happen e).1.pass = s.pass := by cases e <;> rfl
  have hinventory : (s.happen e).1.inventory = s.inventory := by cases e <;> rfl
  refine ⟨hentries ▸ h.exact, ?_, ?_, ?_, ?_, ?_, ?_⟩
  · intro k hnone hne x hx hstage
    -- A name the event is about is taken now, or has just been given up.
    have hkeys : k ∉ e.keys := by
      intro hkeys
      rcases happen_named howned hpossible hkeys with ⟨subject, rfl, hliving, -⟩ | ⟨-, habsent⟩
      · rw [hnone] at hliving
        cases hliving
      · exact hne (habsent hnone)
    obtain ⟨hliving, -, habsent⟩ := happen_other hpossible hkeys
    rcases mem_handlers_incus hx with hold | rfl
    · exact h.quiet k (hliving.symm.trans hnone)
        (fun hnil => hne (habsent.trans hnil)) x hold hstage
    · exact hkeys
  · intro k p hp
    show p < (s.happen e).1.passes
    rw [hpasses]
    exact h.absentTo_lt k p (mem_absentTo_happen e hp)
  · intro p hp
    show p < (s.happen e).1.passes
    rw [hpasses]
    exact h.sweptBy_lt p (hsweptBy ▸ hp)
  · intro p hp
    show p < (s.happen e).1.passes
    rw [hpasses]
    apply h.passNo_lt p
    unfold passNo at hp ⊢
    rwa [hpass] at hp
  · intro k hk p hp hswept
    obtain ⟨hwaits, hp⟩ := waits_of_happen howned hpossible hk hp
    show ∀ e' ∈ (s.happen e).1.entries, _
    rw [hentries]
    exact h.clean k hwaits p hp (hsweptBy ▸ hswept)
  · intro k hk p hp
    obtain ⟨hwaits, hp⟩ := waits_of_happen howned hpossible hk hp
    have hclears := h.clears k hwaits p hp
    unfold Clears at hclears ⊢
    rw [hpass, hentries, hinventory]
    exact hclears

theorem Swept.handle {i : ℕ} {x : EventHandler} (h : s.Swept cluster) (howned : s.Owned)
    (hi : s.handlers[i]? = some x) (hstage : x.stage ≠ .ended) (hhandled : Handled cluster s s' x) :
    s'.Swept cluster := by
  obtain ⟨hexact, hunder⟩ := hhandled.entries h.exact
  have hwaits : ∀ k, s'.Waits k → s.Waits k := by
    intro k hk
    unfold Waits at hk ⊢
    rwa [hhandled.living, hhandled.made] at hk
  -- The handler is not about a name that a pass found absent, unless it was created anew.
  have hapart : ∀ k, s.Waits k → ∀ p ∈ s.absentTo k, Apart x.event k := by
    intro k hk p hp
    rcases hk with hnone | ⟨n, hn⟩
    · exact .inl (h.quiet k hnone (ne_nil_of_mem hp) x (mem_of_getElem? hi) hstage)
    · exact (howned k n hn).apart hi hstage
  refine ⟨hexact, ?_, ?_, ?_, ?_, ?_, ?_⟩
  · intro k hnone hne y hy hystage hkeys
    obtain ⟨z, hz, hzstage, hevent, -⟩ := hhandled.handlers y hy hystage
    rw [hhandled.living] at hnone
    rw [hhandled.absentTo] at hne
    exact h.quiet k hnone hne z hz hzstage (hevent ▸ hkeys)
  · intro k p hp
    rw [hhandled.passes]
    exact h.absentTo_lt k p (hhandled.absentTo ▸ hp)
  · intro p hp
    rw [hhandled.passes]
    exact h.sweptBy_lt p (hhandled.sweptBy ▸ hp)
  · intro p hp
    rw [hhandled.passes]
    apply h.passNo_lt p
    unfold passNo at hp ⊢
    rwa [hhandled.pass] at hp
  · intro k hk p hp hswept e' he'
    rw [hhandled.absentTo] at hp
    rw [hhandled.sweptBy] at hswept
    rw [Bool.eq_false_iff]
    intro hu
    obtain ⟨e, he, -, hu⟩ := hunder k (hapart k (hwaits k hk) p hp) e' he' hu
    rw [h.clean k (hwaits k hk) p hp hswept e he] at hu
    cases hu
  · intro k hk p hp
    rw [hhandled.absentTo] at hp
    have hclears := h.clears k (hwaits k hk) p hp
    have hunder := hunder k (hapart k (hwaits k hk) p hp)
    unfold Clears at hclears ⊢
    rw [hhandled.pass, hhandled.inventory]
    split
    · rename_i hpass
      rw [hpass] at hclears
      exact hclears
    · rename_i hpass
      rw [hpass] at hclears
      exact hclears
    · rename_i no gone hpass
      rw [hpass] at hclears
      intro hno e' he' hu
      obtain ⟨e, he, hid, hu⟩ := hunder e' he' hu
      rw [← hid]
      exact hclears hno e he hu
    · trivial

theorem Swept.collect {running : InstanceKey → Bool} (h : s.Swept cluster)
    (hok : s.orderly (.collect running) = true)
    (hs : s.step cluster (.collect running) = some s') : s'.Swept cluster := by
  dsimp only [step] at hs
  split at hs
  · obtain rfl := some.inj hs
    -- The new pass has a number that none has had.
    have hmem : ∀ {k p},
      (p ∈ if s.living.get k = none then s.passes :: s.absentTo k else s.absentTo k) →
        p ∈ s.absentTo k ∨ (p = s.passes ∧ s.living.get k = none) := by
      intro k p hp
      split_ifs at hp with hnone
      · rcases mem_cons.mp hp with rfl | hp
        · exact .inr ⟨rfl, hnone⟩
        · exact .inl hp
      · exact .inl hp
    refine ⟨h.exact, ?_, ?_, ?_, ?_, ?_, ?_⟩
    · intro k hnone _ x hx hstage hkeys
      have hall := all_eq_true.mp hok x hx
      rw [Bool.or_eq_true, decide_eq_true_eq, all_eq_true] at hall
      have hsome := (hall.resolve_left hstage) k hkeys
      change s.living.get k = none at hnone
      rw [hnone] at hsome
      cases hsome
    · intro k p hp
      show p < s.passes + 1
      rcases hmem hp with hp | ⟨rfl, -⟩
      · have := h.absentTo_lt k p hp
        omega
      · omega
    · intro p hp
      show p < s.passes + 1
      have := h.sweptBy_lt p hp
      omega
    · intro p hp
      show p < s.passes + 1
      have hno : s.passes = p := some.inj hp
      omega
    · intro k hk p hp hswept
      rcases hmem hp with hp | ⟨rfl, -⟩
      · exact h.clean k hk p hp hswept
      · exact absurd (h.sweptBy_lt _ hswept) (Nat.lt_irrefl _)
    · intro k hk p hp
      show s.passes = p → k ∉ (s.living.map fun x =>
        (x.1, (s.living.get x.1).getD 0, running x.1)).map (·.1)
      intro hno
      rcases hmem hp with hp | ⟨-, hnone⟩
      · have := h.absentTo_lt k p hp
        omega
      · rw [map_map]
        intro hin
        have hsome := (OrdMap.isSome_get s.living k).mpr hin
        rw [hnone] at hsome
        cases hsome
  · cases hs

theorem Swept.past (h : s.Swept cluster) (hliving : s'.living = s.living) (hmade : s'.made = s.made)
    (habsent : s'.absentTo = s.absentTo) (hhandlers : s'.handlers = s.handlers)
    (hentries : s'.entries = s.entries) (hpasses : s'.passes = s.passes)
    (hsweptBy : s'.sweptBy = s.sweptBy) (hno : ∀ p, s'.passNo = some p → s.passNo = some p)
    (hpass : ∀ k p, s'.Clears cluster k p) : s'.Swept cluster :=
  h.read hliving hmade habsent hhandlers hentries hpasses hsweptBy hno fun k p _ _ _ => hpass k p

theorem Swept.deleteSwept (h : s.Swept cluster) (hs : s.step cluster .deleteSwept = some s') :
    s'.Swept cluster := by
  dsimp only [step] at hs
  split at hs
  · rename_i no gone hpass
    obtain rfl := some.inj hs
    have hno : s.passNo = some no := by
      unfold passNo
      rw [hpass]
    refine ⟨h.exact.filter _, h.quiet, h.absentTo_lt, ?_, ?_, ?_, fun k hk p hp => trivial⟩
    · intro p hp
      rcases mem_cons.mp hp with rfl | hp
      · exact h.passNo_lt p hno
      · exact h.sweptBy_lt p hp
    · intro p hp
      exact h.passNo_lt p (hno.trans hp)
    · intro k hk p hp hswept e he
      obtain ⟨hmem, hkept⟩ := mem_filter.mp he
      rcases mem_cons.mp hswept with rfl | hswept
      · -- What was on the name when the sweep read is gone, and nothing has come since.
        rw [Bool.eq_false_iff]
        intro hu
        have hclears := h.clears k hk p hp
        unfold Clears at hclears
        rw [hpass] at hclears
        exact of_decide_eq_true hkept (hclears rfl e hmem hu)
      · exact h.clean k hk p hp hswept e hmem
  · cases hs

theorem Swept.pass (h : s.Swept cluster)
    (ha : (match a with
      | .applySnapshot _ | .sweep | .orphans _ | .backfill _ | .fail => true
      | _ => false) = true) (hs : s.step cluster a = some s') : s'.Swept cluster := by
  cases a with
  | applySnapshot now =>
    dsimp only [step] at hs
    split at hs
    · rename_i no snapshot hpass
      obtain rfl := some.inj hs
      refine h.read rfl rfl rfl rfl rfl rfl rfl (fun p hp => ?_) fun k p _ _ hclears hno => ?_
      · unfold passNo
        rw [hpass]
        exact hp
      · unfold Clears at hclears
        rw [hpass] at hclears
        intro hk
        rw [map_map] at hk
        exact hclears hno hk
    · cases hs
  | sweep =>
    dsimp only [step] at hs
    split at hs
    · rename_i no hpass
      obtain rfl := some.inj hs
      refine h.read rfl rfl rfl rfl rfl rfl rfl (fun p hp => ?_) fun k p _ _ hclears hno e he hu =>
        ?_
      · unfold passNo
        rw [hpass]
        exact hp
      · unfold Clears at hclears
        rw [hpass] at hclears
        exact h.exact.mem_goneEntries (hclears hno) he hu
    · cases hs
  | orphans placed =>
    dsimp only [step] at hs
    split at hs
    · rename_i no hpass
      obtain rfl := some.inj hs
      refine h.past rfl rfl rfl rfl rfl rfl rfl (fun p hp => ?_) fun _ _ => trivial
      unfold passNo
      rw [hpass]
      exact hp
    · cases hs
  | backfill owner =>
    dsimp only [step] at hs
    split at hs
    · rename_i no x orphans hpass
      have hno : ∀ p, some no = some p → s.passNo = some p := by
        intro p hp
        unfold passNo
        rw [hpass]
        exact hp
      cases owner with
      | some id =>
        obtain rfl := some.inj hs
        exact h.past rfl rfl rfl rfl rfl rfl rfl hno fun _ _ => trivial
      | none =>
        obtain rfl := some.inj hs
        exact h.past rfl rfl rfl rfl rfl rfl rfl hno fun _ _ => trivial
    · obtain rfl := some.inj hs
      exact h.past rfl rfl rfl rfl rfl rfl rfl (fun p hp => nomatch hp) fun _ _ => trivial
    · cases hs
  | fail =>
    obtain rfl := some.inj hs
    exact h.past rfl rfl rfl rfl rfl rfl rfl (fun p hp => nomatch hp) fun _ _ => trivial
  | _ => cases ha

theorem schedule_frame
    (ha : (match a with
      | .scheduleLeases _ _ _ | .handOut _ | .selectEnded _ _ | .markActed _ _ | .abandon _ => true
      | _ => false) = true) (hs : s.step cluster a = some s') :
    ∃ leases schedules, s' = { s with leases := leases, schedules := schedules } := by
  cases a with
  | scheduleLeases now tenantOf policyOf => exact ⟨_, _, (some.inj hs).symm⟩
  | handOut i =>
    obtain ⟨p, -, hs⟩ := onSchedule_cases hs
    split at hs
    · split_ifs at hs
      · exact ⟨_, _, (some.inj hs).symm⟩
      · exact ⟨_, _, (some.inj hs).symm⟩
    · cases hs
  | selectEnded i policyOf =>
    obtain ⟨p, -, hs⟩ := onSchedule_cases hs
    split at hs
    · exact ⟨_, _, (some.inj hs).symm⟩
    · cases hs
  | markActed i queued =>
    obtain ⟨p, -, hs⟩ := onSchedule_cases hs
    split at hs
    · split_ifs at hs
      · exact ⟨_, _, (some.inj hs).symm⟩
      · exact ⟨_, _, (some.inj hs).symm⟩
    · cases hs
  | abandon i =>
    obtain ⟨p, -, hs⟩ := onSchedule_cases hs
    exact ⟨_, _, (some.inj hs).symm⟩
  | _ => cases ha

theorem Swept.schedule (h : s.Swept cluster)
    (ha : (match a with
      | .scheduleLeases _ _ _ | .handOut _ | .selectEnded _ _ | .markActed _ _ | .abandon _ => true
      | _ => false) = true) (hs : s.step cluster a = some s') : s'.Swept cluster := by
  obtain ⟨leases, schedules, rfl⟩ := schedule_frame ha hs
  exact h.read rfl rfl rfl rfl rfl rfl rfl (fun p hp => hp) fun k p _ _ hclears => hclears

theorem Swept.step (h : s.Swept cluster) (howned : s.Owned)
    (hok : s.orderly a = true) (hs : s.step cluster a = some s') : s'.Swept cluster := by
  cases a with
  | incus e delivered => exact h.incus howned hs
  | handle i =>
    obtain ⟨x, hi, hstage, rfl⟩ := step_handle hs
    exact h.handle howned hi hstage (onLifecycle_handled hi hstage)
  | collect running => exact h.collect hok hs
  | applySnapshot now => exact h.pass rfl hs
  | sweep => exact h.pass rfl hs
  | deleteSwept => exact h.deleteSwept hs
  | orphans placed => exact h.pass rfl hs
  | backfill owner => exact h.pass rfl hs
  | fail => exact h.pass rfl hs
  | _ => exact h.schedule rfl hs

end Swept

/-! ### The successor -/

/-- Where a run begins: whatever is there, no pass is under way and nothing has been kept of the
past. -/
structure Start (cluster : Name) (s : Succession) : Prop where
  exact : Exact cluster s.entries
  made : ∀ k, s.made k = none
  absentTo : ∀ k, s.absentTo k = []
  sweptBy : s.sweptBy = []
  pass : s.pass = .idle

/-- An instance created under the name is still there and the inventory has it; before it was
created, and after the name was last given up, a pass has found the name absent, and has swept. -/
structure Succeeds (s : Succession) (k : InstanceKey) (n : ℕ) : Prop where
  made : s.made k = some n
  absent : ∃ p ∈ s.absentTo k, p ∈ s.sweptBy
  seen : (k, n) ∈ s.inventory.map fun x => (x.key, x.of)

/-- What is stored under the name is of its `n`-th instance. -/
structure StartsClean (cluster : Name) (s : Succession) (k : InstanceKey) (n : ℕ) : Prop where
  owner : ∀ r, s.owners k = some r → r.of = n
  lease : ∀ l, s.leases k = some l → l.of = n ∧ ∀ a, l.actedOf = some a → a = n
  entries : ∀ e ∈ s.entries, entriesUnder (instancePath cluster k) e = false

theorem Start.owned {s : Succession} (h : s.Start cluster) : s.Owned := by
  intro k n hk
  rw [h.made] at hk
  cases hk

theorem Start.swept {s : Succession} (h : s.Start cluster) : s.Swept cluster := by
  have hnone : ∀ {k p}, p ∉ s.absentTo k := by
    intro k p hp
    rw [h.absentTo] at hp
    cases hp
  refine ⟨h.exact, fun k _ hne => absurd (h.absentTo k) hne, fun k p hp => absurd hp hnone, ?_, ?_,
    fun k _ p hp => absurd hp hnone, fun k _ p hp => absurd hp hnone⟩
  · intro p hp
    rw [h.sweptBy] at hp
    cases hp
  · intro p hp
    unfold passNo at hp
    rw [h.pass] at hp
    cases hp

/-- **A later instance of the same name**: in a run in which instances are created where no owner
and no lease is left under their name and nothing under way names it, and passes read the cluster
when no handler of an event on an absent name is under way, an instance that took over a name a pass
had found absent has nothing of its predecessors', whichever events were lost. -/
theorem successor_starts_clean {cluster : Name} {s₀ s : Succession} (h₀ : s₀.Start cluster)
    (h : Run (Succession.step cluster) (fun s a => s.orderly a = true) s₀ s) {k : InstanceKey}
    {n : ℕ}
    (hsucceeds : s.Succeeds k n) : s.StartsClean cluster k n := by
  have hinv : s.Owned ∧ s.Swept cluster :=
    h.invariant (I := fun s => s.Owned ∧ s.Swept cluster) ⟨h₀.owned, h₀.swept⟩
      fun _ _ _ hs hok hstep => ⟨hs.1.step hok hstep, hs.2.step hs.1 hok hstep⟩
  have hown := hinv.1 k n hsucceeds.made
  -- Owner and lease are the instance's own; of entries the sweep has left none.
  obtain ⟨p, hp, hswept⟩ := hsucceeds.absent
  exact ⟨hown.owner, hown.lease, hinv.2.clean k (.inr ⟨n, hsucceeds.made⟩) p hp hswept⟩

end Succession

/-! ### An instance whose delete event is lost -/

def webKey : InstanceKey := ⟨nameA, ⟨"web", by decide⟩⟩

/-- Instance `web` has an entry and, with `rows`, an owner and a lease that has ended. -/
def webInstance (rows : Bool) : Succession where
  born := 1
  living := [(webKey, 0)]
  handlers := []
  owners k := if rows && k = webKey then some ⟨⟨some (false, userU), .event⟩, 0⟩ else none
  leases k := if rows && k = webKey then some ⟨⟨userU, some 0, 0, none⟩, 0, none⟩ else none
  entries := [⟨0, instancePath clusterC.name webKey, .user, userU, "operator"⟩]
  inventory := [⟨webKey, 0, true, 0⟩]
  pass := .idle
  schedules := []
  made _ := none
  passes := 0
  absentTo _ := []
  sweptBy := []

theorem webInstance_start (rows : Bool) : (webInstance rows).Start clusterC.name := by
  refine ⟨fun r hr k hu => ?_, fun _ => rfl, fun _ => rfl, rfl, rfl⟩
  obtain rfl := mem_singleton.mp hr
  have hk : k = webKey := (entriesUnder_iff rfl).mp hu
  rw [hk]

/-- An inventory pass at `now` with nothing to backfill. -/
def wholePass (now : Int) : List SuccessionAction :=
  [.collect fun _ => true, .applySnapshot now, .sweep, .deleteSwept, .orphans [], .backfill none]

/-- The instance is deleted; a pass goes by; another of its name is created, and a pass sees it.
Both events are lost. -/
def takenOver : List SuccessionAction :=
  .incus (.deleted webKey) false :: wholePass 1 ++ .incus (.created webKey none) false ::
    wholePass 2

/-- What is shown of a state: the facts of `Succeeds`, and whose lease stands under the name. -/
structure WebShown where
  made : Option ℕ
  absentTo : List ℕ
  sweptBy : List ℕ
  inventory : List (InstanceKey × ℕ)
  leaseOf : Option ℕ
  deriving DecidableEq

def webShown (s : Succession) : WebShown where
  made := s.made webKey
  absentTo := s.absentTo webKey
  sweptBy := s.sweptBy
  inventory := s.inventory.map fun x => (x.key, x.of)
  leaseOf := (s.leases webKey).map (·.of)

theorem succeeds_of_shown {s : Succession} {leaseOf : Option ℕ}
    (h : webShown s = ⟨some 1, [0], [1, 0], [(webKey, 1)], leaseOf⟩) : s.Succeeds webKey 1 := by
  simp only [webShown, WebShown.mk.injEq] at h
  obtain ⟨hmade, habsent, hswept, hinventory, -⟩ := h
  refine ⟨hmade, ⟨0, ?_, ?_⟩, ?_⟩
  · rw [habsent]
    exact mem_cons_self
  · rw [hswept]
    exact mem_cons_of_mem _ mem_cons_self
  · rw [hinventory]
    exact mem_cons_self

/-- It had no owner and no lease: its successor starts clean. -/
theorem successor_starts_clean_swept :
    ∃ s, Run (Succession.step clusterC.name) (fun s a => s.orderly a = true) (webInstance false) s ∧
      s.Succeeds webKey 1 ∧ s.StartsClean clusterC.name webKey 1 := by
  have hexec : ((Run.exec (Succession.step clusterC.name) (fun s a => s.orderly a = true)
      (webInstance false) takenOver).map webShown) =
      some ⟨some 1, [0], [1, 0], [(webKey, 1)], none⟩ := by
    decide
  obtain ⟨s, hs, hshown⟩ := map_eq_some_iff.mp hexec
  have hrun := Run.of_exec .refl hs
  have hsucceeds := succeeds_of_shown hshown
  exact ⟨s, hrun, hsucceeds,
    Succession.successor_starts_clean (webInstance_start false) hrun hsucceeds⟩

/-- It had an owner and a lease: its successor has them. -/
theorem successor_inherits :
    ¬ ∀ (cluster : Name) (s₀ s : Succession), s₀.Start cluster →
      Run (Succession.step cluster) (fun _ _ => True) s₀ s →
      ∀ (k : InstanceKey) (n : ℕ), s.Succeeds k n → s.StartsClean cluster k n := by
  intro h
  have hexec : ((Run.exec (Succession.step clusterC.name) (fun _ _ => True) (webInstance true)
      takenOver).map webShown) = some ⟨some 1, [0], [1, 0], [(webKey, 1)], some 0⟩ := by
    decide
  obtain ⟨s, hs, hshown⟩ := map_eq_some_iff.mp hexec
  have hclean := h clusterC.name (webInstance true) s (webInstance_start true)
    (Run.of_exec .refl hs)
    webKey 1 (succeeds_of_shown hshown)
  have hleaseOf : (s.leases webKey).map (·.of) = some 0 := congrArg WebShown.leaseOf hshown
  obtain ⟨lease, hlease, hof⟩ := map_eq_some_iff.mp hleaseOf
  have hone : lease.of = 1 := (hclean.lease lease hlease).1
  omega

end IncusCloud.Fleet
