import IncusCloud.Fleet.Proofs.Statements
import IncusCloud.Lib.Backlog
import IncusCloud.Lib.Run

/-!
# Renames keep what an instance has

Once every event is handled, each living instance has the owner, the lease and the entries it had,
and no other name has any, in every run in which the handlers of events on one name keep to their
order on each table, and the inventory passes sweep and backfill only while exactly the renames and
deletes from before their snapshot are handled.

What carries the proof is that each name has a cut in the log of events, for each table: the table
has for the name what the instance of that name had there.
-/

namespace IncusCloud.Fleet

open Lib Acl List
open Option (isNone_iff_eq_none map_eq_some_iff some.inj)

/-! ### What Incus has -/

namespace LifecycleEvent

def names (stage : Stage) : LifecycleEvent → List InstanceKey
  | .created key subject => if stage = .owners ∧ subject.isSome then [key] else []
  | .renamed project old name => [⟨project, old⟩, ⟨project, name⟩]
  | .deleted key => [key]

variable {living : OrdMap InstanceKey Held}

theorem get_created (key : InstanceKey) (subject : Option (Bool × Uuid)) (k : InstanceKey)
    (h : (created key subject).possible living = true) :
    ((created key subject).after living).get k =
      if k = key then some ⟨subject.map (⟨some ·, .event⟩), none, []⟩ else living.get k := by
  have hnone : living.get key = none := isNone_iff_eq_none.mp h
  rw [after, OrdMap.get_append, OrdMap.get_cons]
  split_ifs with h1 h2 h3
  · rw [← h1, hnone]
    rfl
  · exact absurd h1.symm h2
  · exact absurd h3.symm h1
  · rw [OrdMap.get_nil, Option.or_none]

theorem renamed_possible {project old name : Name}
    (h : (renamed project old name).possible living = true) :
    (living.get ⟨project, old⟩).isSome = true ∧ living.get ⟨project, name⟩ = none := by
  obtain ⟨hold, hname⟩ := Bool.and_eq_true_iff.mp h
  exact ⟨hold, isNone_iff_eq_none.mp hname⟩

theorem get_renamed {project old name : Name} (k : InstanceKey)
    (h : (renamed project old name).possible living = true) :
    ((renamed project old name).after living).get k =
      if k = ⟨project, name⟩ then living.get ⟨project, old⟩
      else if k = ⟨project, old⟩ then none else living.get k :=
  OrdMap.get_rename (renamed_possible h).2 _ k

theorem get_deleted (key k : InstanceKey) :
    ((deleted key).after living).get k = if k = key then none else living.get k := by
  rw [after, OrdMap.get_erase]

variable {k : InstanceKey}

theorem get_after {stage : Stage} {e : LifecycleEvent}
    (hpossible : e.possible living = true) (hk : k ∉ e.names stage) :
    (e.after living).get k = living.get k ∨
      ∃ subject, e = .created k subject ∧ (stage = .owners → subject = none) := by
  cases e with
  | created key subject =>
    rw [get_created _ _ _ hpossible]
    split_ifs with hkey
    · subst hkey
      refine .inr ⟨subject, rfl, fun hstage => ?_⟩
      by_contra hsome
      refine hk ?_
      rw [names, if_pos ⟨hstage, Option.isSome_iff_ne_none.mpr hsome⟩]
      exact mem_singleton_self _
    · exact .inl rfl
  | renamed project old name =>
    simp only [names, mem_cons, not_mem_nil, or_false, not_or] at hk
    rw [get_renamed _ hpossible, if_neg hk.2, if_neg hk.1]
    exact .inl rfl
  | deleted key =>
    rw [get_deleted, if_neg fun h => hk (mem_singleton.mpr h)]
    exact .inl rfl

end LifecycleEvent

namespace ClusterState

variable {s : ClusterState} {i j n : ℕ} {e : LifecycleEvent} {stage : Stage} {k : InstanceKey}

theorem livingAt_succ (h : s.log[j]? = some (e, stage)) :
    s.livingAt (j + 1) = e.after (s.livingAt j) := by
  unfold livingAt
  rw [take_add_one, h, Option.toList_some, foldl_append]
  rfl

theorem livingAt_of_log {t : ClusterState} (hstart : t.start = s.start)
    (hlog : (t.log.take n).map (·.1) = (s.log.take n).map (·.1)) : t.livingAt n = s.livingAt n := by
  unfold livingAt
  have hfold : ∀ (log : List (LifecycleEvent × Stage)) (living : OrdMap InstanceKey Held),
      log.foldl (fun living e => e.1.after living) living =
        (log.map (·.1)).foldl (fun living e => e.after living) living := fun log living =>
    foldl_map.symm
  rw [hfold, hfold, hlog, hstart]

theorem livingAt_append (hn : n ≤ s.log.length) (f : LifecycleEvent × Stage) :
    livingAt { s with log := s.log ++ [f] } n = s.livingAt n := by
  refine livingAt_of_log rfl ?_
  rw [take_append_of_le_length hn]

theorem map_fst_set (h : s.log[i]? = some (e, stage)) (stage' : Stage) :
    (s.log.set i (e, stage')).map (·.1) = s.log.map (·.1) := by
  obtain ⟨hlt, hget⟩ := List.getElem?_eq_some_iff.mp h
  have hlt' : i < (s.log.map (·.1)).length := by rwa [length_map]
  have he : (s.log.map (·.1))[i] = e := by rw [getElem_map, hget]
  rw [map_set]
  show (s.log.map (·.1)).set i e = _
  rw [← he]
  exact set_getElem_self hlt'

theorem livingAt_reach (h : s.log[i]? = some (e, stage)) (stage' : Stage) (n : ℕ) :
    (s.reach i e stage').livingAt n = s.livingAt n := by
  refine livingAt_of_log rfl ?_
  rw [map_take, map_take]
  exact congrArg _ (map_fst_set h stage')

def event (s : ClusterState) (v : ℕ) : Option LifecycleEvent := (s.log[v]?).map (·.1)

theorem event_reach (h : s.log[i]? = some (e, stage)) (stage' : Stage) (v : ℕ) :
    (s.reach i e stage').event v = s.event v := by
  unfold event reach
  rw [← List.getElem?_map, ← List.getElem?_map, map_fst_set h]

def Possible (s : ClusterState) : Prop :=
  ∀ (j : ℕ) (e : LifecycleEvent) (stage : Stage), s.log[j]? = some (e, stage) →
    e.possible (s.livingAt j) = true

end ClusterState

/-! ### Tables -/

def Stage.index : Stage → ℕ
  | .owners => 0
  | .leases => 1
  | .entries => 2
  | .ended => 3

/-- The statement of `stage` is still to run. -/
def todo (stage : Stage) (f : LifecycleEvent × Stage) : Prop := f.2.index ≤ stage.index

def touches (stage : Stage) (k : InstanceKey) (f : LifecycleEvent × Stage) : Prop :=
  k ∈ f.1.names stage

/-- No handler of an earlier event has its statement on one of these names still to run. -/
def ClusterState.First (s : ClusterState) (i : ℕ) (e : LifecycleEvent) (stage : Stage) : Prop :=
  ∀ f ∈ s.log.take i, f.2.index ≤ stage.index → ∀ k ∈ e.names stage, k ∉ f.1.names stage

instance (s : ClusterState) (i : ℕ) (e : LifecycleEvent) (stage : Stage) :
    Decidable (s.First i e stage) :=
  inferInstanceAs (Decidable (∀ f ∈ s.log.take i, f.2.index ≤ stage.index →
    ∀ k ∈ e.names stage, k ∉ f.1.names stage))

theorem ClusterState.First.not_todo {s : ClusterState} {i : ℕ} {e : LifecycleEvent} {stage : Stage}
    (h : s.First i e stage) (hk : k ∈ e.names stage) :
    ∀ j f, j < i → s.log[j]? = some f → touches stage k f → ¬ todo stage f := by
  intro j f hj hf htouch htodo
  have hmem : f ∈ s.log.take i := by
    refine mem_of_getElem? (i := j) ?_
    rw [List.getElem?_take_of_lt hj, hf]
  exact h f hmem htodo k hk htouch

/-- Something stored under the instances' names, and how it follows their events. -/
structure Column (X : Type) where
  stage : Stage
  Fits : InstanceKey → Option LifecycleEvent → Option Held → X → Prop
  happens : ∀ {k l x} e, Fits k none l x → Fits k (some e) l x
  skips : ∀ {k e living x}, e.possible living = true → k ∉ e.names stage →
    Fits k (some e) (living.get k) x → ∀ next, Fits k next ((e.after living).get k) x
  empty : X
  gone : ∀ k next, Fits k next none empty
  moves : ∀ {k project old name l x}, Fits k (some (.renamed project old name)) l x →
    (l = none → x = empty) ∧ ∀ k' next, Fits k' next l x

def Column.Follows {X : Type} (c : Column X) (s : ClusterState) (t : InstanceKey → X) : Prop :=
  ∀ k, ∃ v, Cut (touches c.stage k) (todo c.stage) s.log v ∧
    c.Fits k (s.event v) ((s.livingAt v).get k) (t k)

namespace Column

variable {X : Type} {c : Column X} {s : ClusterState} {t t' : InstanceKey → X} {i : ℕ}
  {e : LifecycleEvent} {stage stage' : Stage}

theorem fits_between (hs : s.Possible) {x : X} {v w : ℕ} (hvw : v ≤ w)
    (hw : w ≤ s.log.length)
    (hnone : ∀ j f, v ≤ j → j < w → s.log[j]? = some f → ¬ touches c.stage k f)
    (h : c.Fits k (s.event v) ((s.livingAt v).get k) x) :
    c.Fits k (s.event w) ((s.livingAt w).get k) x := by
  have hkeeps : ∀ j f, s.log[j]? = some f → ¬ touches c.stage k f →
      c.Fits k (s.event j) ((s.livingAt j).get k) x →
      c.Fits k (s.event (j + 1)) ((s.livingAt (j + 1)).get k) x := by
    rintro j ⟨e, stage⟩ hget htouch hfits
    have hevent : s.event j = some e := by
      unfold ClusterState.event
      rw [hget]
      rfl
    rw [hevent] at hfits
    rw [ClusterState.livingAt_succ hget]
    exact c.skips (hs j e stage hget) htouch hfits _
  exact keeps_between hkeeps hvw hw hnone h

theorem Follows.incus (h : c.Follows s t) (e : LifecycleEvent) :
    c.Follows { s with log := s.log ++ [(e, .owners)] } t := by
  intro k
  obtain ⟨v, hcut, hfits⟩ := h k
  refine ⟨v, hcut.append (Nat.zero_le _), ?_⟩
  rw [ClusterState.livingAt_append hcut.le]
  unfold ClusterState.event
  by_cases hv : v < s.log.length
  · dsimp only
    rw [List.getElem?_append_left hv]
    exact hfits
  · have hlen : v = s.log.length := by
      have hle := hcut.le
      omega
    subst hlen
    have hnone : s.event s.log.length = none := by
      unfold ClusterState.event
      rw [List.getElem?_eq_none le_rfl]
      rfl
    rw [hnone] at hfits
    rw [List.getElem?_concat_length]
    exact c.happens e hfits

theorem Follows.reach (h : c.Follows s t) (hi : s.log[i]? = some (e, stage))
    (hother : (stage'.index ≤ c.stage.index ↔ stage.index ≤ c.stage.index) ∨ e.names c.stage = []) :
    c.Follows (s.reach i e stage') t := by
  intro k
  obtain ⟨v, hcut, hfits⟩ := h k
  refine ⟨v, ?_, ?_⟩
  · rcases hother with hsame | hnames
    · exact hcut.set_of_iff hi id hsame
    · refine hcut.set_of_not_touches fun htouch => ?_
      unfold touches at htouch
      rw [hnames] at htouch
      exact not_mem_nil htouch
  · rw [ClusterState.event_reach hi, ClusterState.livingAt_reach hi]
    exact hfits

theorem Follows.run (h : c.Follows s t) (hi : s.log[i]? = some (e, c.stage))
    (hfirst : s.First i e c.stage)
    (hstage : ¬ stage'.index ≤ c.stage.index)
    (hother : ∀ k, k ∉ e.names c.stage → t' k = t k)
    (hnames : ∀ k ∈ e.names c.stage, ∀ next,
      c.Fits k next ((e.after (s.livingAt i)).get k) (t' k)) :
    c.Follows (s.reach i e stage') t' := by
  intro k
  obtain ⟨v, hcut, hfits⟩ := h k
  by_cases hk : k ∈ e.names c.stage
  · refine ⟨i + 1, hcut.advance hi hk le_rfl (hfirst.not_todo hk) hstage, ?_⟩
    rw [ClusterState.event_reach hi, ClusterState.livingAt_reach hi, ClusterState.livingAt_succ hi]
    exact hnames k hk _
  · refine ⟨v, hcut.set_of_not_touches hk, ?_⟩
    rw [ClusterState.event_reach hi, ClusterState.livingAt_reach hi, hother k hk]
    exact hfits

theorem Follows.fits_first (h : c.Follows s t) (hs : s.Possible)
    (hi : s.log[i]? = some (e, c.stage))
    (hfirst : s.First i e c.stage) (hk : k ∈ e.names c.stage) :
    c.Fits k (some e) ((s.livingAt i).get k) (t k) := by
  obtain ⟨v, hcut, hfits⟩ := h k
  have hv : v ≤ i := (hcut.iff i _ hi hk).mp le_rfl
  have hlt : i < s.log.length := (List.getElem?_eq_some_iff.mp hi).1
  have hevent : s.event i = some e := by
    unfold ClusterState.event
    rw [hi]
    rfl
  rw [← hevent]
  exact fits_between hs hv (le_of_lt hlt)
    (fun j f hvj hji hf => hcut.untouched (hfirst.not_todo hk) hvj hji hf) hfits

theorem Follows.settled (h : c.Follows s t) (hs : s.Possible)
    (hended : ∀ f ∈ s.log, ¬ todo c.stage f) (k : InstanceKey) :
    c.Fits k none (s.living.get k) (t k) := by
  obtain ⟨v, hcut, hfits⟩ := h k
  have hevent : s.event s.log.length = none := by
    unfold ClusterState.event
    rw [List.getElem?_eq_none le_rfl]
    rfl
  rw [← hevent]
  refine fits_between hs hcut.le le_rfl (fun j f hvj _ hf htouch => ?_) hfits
  exact hended f (mem_of_getElem? hf) ((hcut.iff j f hf htouch).mpr hvj)

section

variable {project old name : Name} {key : InstanceKey}

theorem Follows.free (h : c.Follows s t) (hs : s.Possible)
    (hi : s.log[i]? = some (.renamed project old name, c.stage))
    (hfirst : s.First i (.renamed project old name) c.stage) : t ⟨project, name⟩ = c.empty := by
  have hfits := h.fits_first hs hi hfirst (mem_cons_of_mem _ (mem_singleton_self _))
  exact (c.moves hfits).1 (LifecycleEvent.renamed_possible (hs i _ _ hi)).2

theorem Follows.renamed (h : c.Follows s t) (hs : s.Possible)
    (hi : s.log[i]? = some (.renamed project old name, c.stage))
    (hfirst : s.First i (.renamed project old name) c.stage) (hstage : ¬ stage'.index ≤ c.stage.index)
    (ht' : ∀ k, t' k = if k = ⟨project, name⟩ then t ⟨project, old⟩
      else if k = ⟨project, old⟩ then c.empty else t k) :
    c.Follows (s.reach i (.renamed project old name) stage') t' := by
  have hpossible := hs i _ _ hi
  have hold := h.fits_first hs hi hfirst mem_cons_self
  refine h.run hi hfirst hstage (fun k hk => ?_) fun k hk next => ?_
  · simp only [LifecycleEvent.names, mem_cons, not_mem_nil, or_false, not_or] at hk
    rw [ht', if_neg hk.2, if_neg hk.1]
  · simp only [LifecycleEvent.names, mem_cons, not_mem_nil, or_false] at hk
    rw [ht', LifecycleEvent.get_renamed _ hpossible]
    split_ifs with h1 h2
    · exact (c.moves hold).2 _ _
    · exact c.gone k next
    · exact absurd hk (not_or.mpr ⟨h2, h1⟩)

theorem Follows.deleted (h : c.Follows s t) (hi : s.log[i]? = some (.deleted key, c.stage))
    (hfirst : s.First i (.deleted key) c.stage) (hstage : ¬ stage'.index ≤ c.stage.index)
    (ht' : ∀ k, t' k = if k = key then c.empty else t k) :
    c.Follows (s.reach i (.deleted key) stage') t' := by
  refine h.run hi hfirst hstage (fun k hk => ?_) fun k hk next => ?_
  · rw [ht', if_neg fun heq => hk (mem_singleton.mpr heq)]
  · have heq : k = key := mem_singleton.mp hk
    rw [ht', LifecycleEvent.get_deleted, if_pos heq, if_pos heq]
    exact c.gone k next

end

end Column

/-! ### The three tables -/

def heldColumn {X : Type} (stage : Stage) (empty : X) (f : Held → X)
    (hempty : ∀ owner, f ⟨owner, none, []⟩ = empty) : Column X where
  stage := stage
  Fits _ _ l x := x = l.elim empty f
  happens _ h := h
  skips := by
    intro k e living x hpossible hk h next
    rcases LifecycleEvent.get_after hpossible hk with hsame | ⟨subject, rfl, -⟩
    · rw [hsame]
      exact h
    · have hnone : living.get k = none := isNone_iff_eq_none.mp hpossible
      rw [hnone] at h
      rw [LifecycleEvent.get_created _ _ _ hpossible, if_pos rfl]
      exact h.trans (hempty _).symm
  empty := empty
  gone _ _ := rfl
  moves h := ⟨fun hl => by rw [h, hl]; rfl, fun _ _ => h⟩

theorem heldColumn_at_cut {X : Type} {stage : Stage} {empty : X} {f : Held → X}
    {hempty : ∀ owner, f ⟨owner, none, []⟩ = empty} {s : ClusterState} {t : InstanceKey → X}
    (h : (heldColumn stage empty f hempty).Follows s t) (hs : s.Possible) {w : ℕ}
    (hw : Cut (touches stage k) (todo stage) s.log w) :
    t k = ((s.livingAt w).get k).elim empty f := by
  obtain ⟨v, hv, hfits⟩ := h k
  rcases le_total v w with hvw | hwv
  · exact Column.fits_between hs hvw hw.le (hv.between hw) hfits
  · have hat : (heldColumn stage empty f hempty).Fits k (s.event w) ((s.livingAt w).get k)
        (((s.livingAt w).get k).elim empty f) := rfl
    have hthere := Column.fits_between hs hwv hv.le (hw.between hv) hat
    exact hfits.trans hthere.symm

def leasesColumn : Column (Option InstanceLease) := heldColumn .leases none (·.lease) fun _ => rfl

def entriesColumn : Column (List (ℕ × SubjectKind × Uuid × String)) :=
  heldColumn .entries [] (·.entries) fun _ => rfl

def OwnerFits (l : Option Held) (x : Option Owner) : Prop :=
  match l with
  | none => x = none
  | some h =>
    match h.owner with
    | some o => x = some o
    | none => ∀ o, x = some o → o.source = .backfill

def ownersColumn : Column (Option Owner) where
  stage := .owners
  Fits k next l x := OwnerFits l x ∨
    ((∃ subject, next = some (.created k (some subject))) ∧ ∃ o, x = some o ∧ o.source = .backfill)
  happens := by
    rintro k l x e (h | ⟨⟨subject, h⟩, -⟩)
    · exact .inl h
    · cases h
  skips := by
    rintro k e living x hpossible hk (h | ⟨⟨subject, hnext⟩, -⟩) next
    · refine .inl ?_
      rcases LifecycleEvent.get_after hpossible hk with hsame | ⟨subject, rfl, hsubject⟩
      · rw [hsame]
        exact h
      · have hnone : living.get k = none := isNone_iff_eq_none.mp hpossible
        rw [hnone] at h
        have hx : x = none := h
        rw [LifecycleEvent.get_created _ _ _ hpossible, if_pos rfl, hsubject rfl, hx]
        exact nofun
    · obtain rfl := some.inj hnext
      exact absurd (mem_singleton_self k) hk
  empty := none
  gone _ _ := .inl rfl
  moves := by
    rintro k project old name l x (h | ⟨⟨subject, hnext⟩, -⟩)
    · refine ⟨fun hl => ?_, fun _ _ => .inl h⟩
      rw [hl] at h
      exact h
    · cases hnext

/-! ### Runs -/

namespace ClusterState

/-- Of the renames and deletes, those are handled on this table that happened before the snapshot. -/
def HandledUpTo (s : ClusterState) (stage : Stage) (taken : ℕ) : Prop :=
  ∀ f ∈ s.log.zipIdx, f.1.1.isCreate = false → (f.1.2.index ≤ stage.index ↔ taken ≤ f.2)

instance (s : ClusterState) (stage : Stage) (taken : ℕ) : Decidable (s.HandledUpTo stage taken) :=
  inferInstanceAs (Decidable (∀ f ∈ s.log.zipIdx, f.1.1.isCreate = false →
    (f.1.2.index ≤ stage.index ↔ taken ≤ f.2)))

/-- Handlers of events on one name keep to their order on each table, and a pass sweeps and
backfills only while the tables are as of its snapshot. -/
def orderly (s : ClusterState) : ClusterAction → Bool
  | .handle i =>
    match s.log[i]? with
    | some (e, stage) => decide (s.First i e stage)
    | none => true
  | .sweep =>
    match s.pass with
    | .applied taken => decide (s.HandledUpTo .entries taken)
    | _ => true
  | .backfill (some _) =>
    match s.pass with
    | .filling (_ :: _) taken => decide (s.HandledUpTo .owners taken)
    | _ => true
  | _ => true

def Names (s : ClusterState) (names : List InstanceKey) (taken : ℕ) : Prop :=
  taken ≤ s.log.length ∧ ∀ k, k ∈ names ↔ ((s.livingAt taken).get k).isSome = true

def PassOk (cluster : Name) (s : ClusterState) : Pass → Prop
  | .idle => True
  | .collected snapshot taken => s.Names snapshot taken
  | .applied taken => s.Names s.inventory taken
  | .sweeping gone taken => s.Names s.inventory taken ∧
      ∀ r ∈ s.entries, r.id ∈ gone → ∀ k, entriesUnder (instancePath cluster k) r = false
  | .swept taken => s.Names s.inventory taken
  | .filling orphans taken =>
    taken ≤ s.log.length ∧ ∀ k ∈ orphans, ((s.livingAt taken).get k).isSome = true

/-- Each column follows the instances that live. -/
structure Tracked (cluster : Name) (s : ClusterState) : Prop where
  possible : s.Possible
  owners : ownersColumn.Follows s s.owners
  leases : leasesColumn.Follows s s.leases
  entries : entriesColumn.Follows s (entriesOn cluster s.entries)
  rows : RowsOk cluster s.entries
  pass : s.PassOk cluster s.pass

variable {cluster : Name} {s t : ClusterState} {i taken : ℕ} {e : LifecycleEvent} {stage : Stage}

theorem Possible.append (h : s.Possible) (he : e.possible s.living = true) :
    Possible { s with log := s.log ++ [(e, .owners)] } := by
  intro j f stage hj
  by_cases hlt : j < s.log.length
  · dsimp only at hj
    rw [List.getElem?_append_left hlt] at hj
    rw [livingAt_append (le_of_lt hlt)]
    exact h j f stage hj
  · have hlen : j = s.log.length := by
      have hlt' := (List.getElem?_eq_some_iff.mp hj).1
      rw [length_append, length_singleton] at hlt'
      omega
    subst hlen
    rw [List.getElem?_concat_length] at hj
    rw [livingAt_append le_rfl, ← (Prod.mk.inj (some.inj hj)).1]
    exact he

theorem Possible.reach (h : s.Possible) (hi : s.log[i]? = some (e, stage)) (stage' : Stage) :
    (s.reach i e stage').Possible := by
  intro j f st hj
  have hevent : (s.reach i e stage').event j = some f := by
    unfold event
    rw [hj]
    rfl
  rw [event_reach hi] at hevent
  obtain ⟨⟨f', st'⟩, hget, rfl⟩ := map_eq_some_iff.mp hevent
  rw [livingAt_reach hi]
  exact h j f' st' hget

theorem Names.of_log {names : List InstanceKey} (h : s.Names names taken)
    (hlen : s.log.length ≤ t.log.length)
    (hliving : ∀ n ≤ s.log.length, t.livingAt n = s.livingAt n) : t.Names names taken := by
  refine ⟨le_trans h.1 hlen, fun k => ?_⟩
  rw [hliving taken h.1]
  exact h.2 k

theorem PassOk.of_log {p : Pass} (h : s.PassOk cluster p) (hlen : s.log.length ≤ t.log.length)
    (hliving : ∀ n ≤ s.log.length, t.livingAt n = s.livingAt n) (hinventory : t.inventory = s.inventory)
    (hentries : ∀ r' ∈ t.entries, r' ∈ s.entries ∨
      ∃ r ∈ s.entries, r.id = r'.id ∧ ∃ k, entriesUnder (instancePath cluster k) r = true) :
    t.PassOk cluster p := by
  cases p with
  | idle => trivial
  | collected snapshot taken => exact Names.of_log h hlen hliving
  | applied taken =>
    show t.Names t.inventory taken
    rw [hinventory]
    exact Names.of_log h hlen hliving
  | sweeping gone taken =>
    refine ⟨?_, fun r' hr' hgone k => ?_⟩
    · rw [hinventory]
      exact h.1.of_log hlen hliving
    · rcases hentries r' hr' with hr | ⟨r, hr, hid, k', hu⟩
      · exact h.2 r' hr hgone k
      · rw [← hid] at hgone
        rw [h.2 r hr hgone k'] at hu
        cases hu
  | swept taken =>
    show t.Names t.inventory taken
    rw [hinventory]
    exact Names.of_log h hlen hliving
  | filling orphans taken =>
    refine ⟨le_trans h.1 hlen, fun k hk => ?_⟩
    rw [hliving taken h.1]
    exact h.2 k hk

theorem PassOk.reach {p : Pass} (h : s.PassOk cluster p) (hi : s.log[i]? = some (e, stage))
    (stage' : Stage) : (s.reach i e stage').PassOk cluster p :=
  h.of_log (le_of_eq (length_set).symm) (fun n _ => livingAt_reach hi stage' n) rfl
    fun _ hr => .inl hr

theorem Tracked.incus (h : s.Tracked cluster) (he : e.possible s.living = true) :
    Tracked cluster { s with log := s.log ++ [(e, .owners)] } := by
  refine ⟨h.possible.append he, h.owners.incus e, h.leases.incus e, h.entries.incus e, h.rows, ?_⟩
  refine h.pass.of_log ?_ (fun n hn => livingAt_append hn _) rfl fun _ hr => .inl hr
  rw [length_append]
  exact Nat.le_add_right _ _

theorem Tracked.handle_owners (h : s.Tracked cluster) (hi : s.log[i]? = some (e, .owners))
    (hfirst : s.First i e .owners) : (s.onLifecycle cluster i e .owners).Tracked cluster := by
  have hpossible := h.possible.reach hi
  cases e with
  | created key subject =>
    have hnames : ∀ st : Stage, st ≠ .owners → (LifecycleEvent.created key subject).names st = [] :=
      fun st hst => if_neg fun hand => hst hand.1
    have hleases : leasesColumn.Follows (s.reach i (.created key subject) .ended) s.leases :=
      h.leases.reach hi (.inr (hnames _ nofun))
    have hentries : entriesColumn.Follows (s.reach i (.created key subject) .ended)
        (entriesOn cluster s.entries) := h.entries.reach hi (.inr (hnames _ nofun))
    cases subject with
    | none =>
      exact ⟨hpossible _, h.owners.reach hi (.inr rfl), hleases, hentries, h.rows, h.pass.reach hi _⟩
    | some subject =>
      have hkey : key ∈ (LifecycleEvent.created key (some subject)).names .owners :=
        mem_singleton_self _
      have hfits := h.owners.fits_first h.possible hi hfirst hkey
      have hnone : (s.livingAt i).get key = none :=
        isNone_iff_eq_none.mp (h.possible i _ _ hi)
      have hgap : ∀ o, s.owners key = some o → o.source = .backfill := by
        intro o ho
        rcases hfits with hfits | ⟨-, o', ho', hsource⟩
        · rw [hnone] at hfits
          have hx : s.owners key = none := hfits
          rw [ho] at hx
          cases hx
        · rw [ho] at ho'
          rwa [some.inj ho']
      refine ⟨hpossible _, ?_, hleases, hentries, h.rows, h.pass.reach hi _⟩
      refine h.owners.run hi hfirst nofun (fun k hk => ?_) fun k hk next => .inl ?_
      · exact recordOwner_of_ne fun heq => hk (mem_singleton.mpr heq)
      · obtain rfl := mem_singleton.mp hk
        rw [LifecycleEvent.get_created _ _ _ (h.possible i _ _ hi), if_pos rfl]
        exact recordOwner_event hgap
  | renamed project old name =>
    obtain ⟨owners, heq, hspec⟩ := rekey_spec ⟨project, old⟩ (h.owners.free h.possible hi hfirst)
    simp only [onLifecycle, renameOwned, heq]
    exact ⟨hpossible _, h.owners.renamed h.possible hi hfirst nofun hspec,
      h.leases.reach hi (.inl (by decide)), h.entries.reach hi (.inl (by decide)), h.rows,
      h.pass.reach hi _⟩
  | deleted key =>
    exact ⟨hpossible _, h.owners.deleted hi hfirst nofun (forget_apply s.owners key),
      h.leases.reach hi (.inl (by decide)), h.entries.reach hi (.inl (by decide)), h.rows,
      h.pass.reach hi _⟩

theorem Tracked.handle_leases (h : s.Tracked cluster) (hi : s.log[i]? = some (e, .leases))
    (hfirst : s.First i e .leases) : (s.onLifecycle cluster i e .leases).Tracked cluster := by
  have hpossible := h.possible.reach hi
  cases e with
  | created key subject =>
    cases subject with
    | none => exact h
    | some subject => exact h
  | renamed project old name =>
    obtain ⟨leases, heq, hspec⟩ := rekey_spec ⟨project, old⟩ (h.leases.free h.possible hi hfirst)
    simp only [onLifecycle, renameLease, heq]
    exact ⟨hpossible _, h.owners.reach hi (.inl (by decide)),
      h.leases.renamed h.possible hi hfirst nofun hspec, h.entries.reach hi (.inl (by decide)), h.rows,
      h.pass.reach hi _⟩
  | deleted key =>
    exact ⟨hpossible _, h.owners.reach hi (.inl (by decide)),
      h.leases.deleted hi hfirst nofun (forget_apply s.leases key),
      h.entries.reach hi (.inl (by decide)), h.rows, h.pass.reach hi _⟩

theorem Tracked.handle_entries (h : s.Tracked cluster) (hi : s.log[i]? = some (e, .entries))
    (hfirst : s.First i e .entries) : (s.onLifecycle cluster i e .entries).Tracked cluster := by
  have hpossible := h.possible.reach hi
  cases e with
  | created key subject =>
    cases subject with
    | none => exact h
    | some subject => exact h
  | renamed project old name =>
    have hfree := h.entries.free h.possible hi hfirst
    simp only [onLifecycle, moveEntries_eq h.rows hfree]
    refine ⟨hpossible _, h.owners.reach hi (.inl (by decide)), h.leases.reach hi (.inl (by decide)),
      h.entries.renamed h.possible hi hfirst nofun (entriesOn_moved h.rows hfree), h.rows.moved hfree, ?_⟩
    refine h.pass.of_log (le_of_eq (length_set).symm) (fun n _ => livingAt_reach hi _ n) rfl ?_
    intro r' hr'
    obtain ⟨r, hr, rfl⟩ := List.mem_map.mp hr'
    cases hu : entriesUnder (instancePath cluster ⟨project, old⟩) r with
    | true => exact .inr ⟨r, hr, r.moved_id.symm, _, hu⟩
    | false =>
      refine .inl ?_
      unfold EntryRow.moved
      rw [hu, if_neg Bool.false_ne_true]
      exact hr
  | deleted key =>
    refine ⟨hpossible _, h.owners.reach hi (.inl (by decide)), h.leases.reach hi (.inl (by decide)),
      h.entries.deleted hi hfirst nofun (entriesOn_deleted h.rows key), h.rows.filter _, ?_⟩
    exact h.pass.of_log (le_of_eq (length_set).symm) (fun n _ => livingAt_reach hi _ n) rfl
      fun r' hr' => .inl (mem_filter.mp hr').1

theorem HandledUpTo.iff (h : s.HandledUpTo stage taken) {j : ℕ} {f : LifecycleEvent × Stage}
    (hf : s.log[j]? = some f) (hcreate : f.1.isCreate = false) : todo stage f ↔ taken ≤ j :=
  h (f, j) (mk_mem_zipIdx_iff_getElem?.mpr hf) hcreate

theorem Tracked.swept (h : s.Tracked cluster) (hnames : s.Names s.inventory taken)
    (hhandled : s.HandledUpTo .entries taken) {r : EntryRow} (hr : r ∈ s.entries)
    (hgone : r.id ∈ goneEntries cluster s.inventory s.entries) (k : InstanceKey) :
    entriesUnder (instancePath cluster k) r = false := by
  rw [Bool.eq_false_iff]
  intro hu
  obtain ⟨r', hr', hid⟩ := List.mem_map.mp hgone
  obtain ⟨hselected, hpath⟩ := mem_filter.mp hr'
  obtain rfl := inj_on_of_nodup_map h.rows.ids (mem_filter.mp hselected).1 hr hid
  -- The entries are as of the snapshot, so the name of this one is in it.
  have hcut : Cut (touches .entries k) (todo .entries) s.log taken := by
    refine ⟨hnames.1, fun j f hf htouch => hhandled.iff hf ?_⟩
    obtain ⟨e, st⟩ := f
    cases e with
    | created key subject => exact absurd htouch not_mem_nil
    | renamed project old name => rfl
    | deleted key => rfl
  have hheld : entriesOn cluster s.entries k = _ := heldColumn_at_cut h.entries h.possible hcut
  have hmem := mem_entriesOn hr hu
  have hliving : ((s.livingAt taken).get k).isSome = true := by
    cases hget : (s.livingAt taken).get k with
    | none =>
      rw [hheld, hget] at hmem
      exact absurd hmem not_mem_nil
    | some held => rfl
  have hknown : r'.path ∈ s.inventory.map (instancePath cluster) := by
    rw [h.rows.exact r' hr k hu]
    exact mem_map_of_mem ((hnames.2 k).mpr hliving)
  exact of_decide_eq_true hpath hknown

theorem isSome_between (hs : s.Possible) {v w : ℕ} (hvw : v ≤ w)
    (hw : w ≤ s.log.length)
    (hnone : ∀ j f, v ≤ j → j < w → s.log[j]? = some f → ¬ touches stage k f)
    (h : ((s.livingAt v).get k).isSome = true) : ((s.livingAt w).get k).isSome = true := by
  refine keeps_between (P := fun j => ((s.livingAt j).get k).isSome = true) ?_ hvw hw hnone h
  rintro j ⟨e, st⟩ hget htouch hsome
  have hpossible := hs j e st hget
  rw [livingAt_succ hget]
  rcases LifecycleEvent.get_after hpossible htouch with hsame | ⟨subject, rfl, -⟩
  · rwa [hsame]
  · have hnone : (s.livingAt j).get k = none := isNone_iff_eq_none.mp hpossible
    rw [hnone] at hsome
    cases hsome

theorem create_touches (hs : s.Possible) {j : ℕ}
    (hget : s.log[j]? = some (e, stage)) (hcreate : e.isCreate = true)
    (htouch : k ∈ e.names .owners) :
    (s.livingAt j).get k = none ∧ ∃ subject, e = .created k (some subject) := by
  cases e with
  | created key subject =>
    cases subject with
    | none => exact absurd htouch not_mem_nil
    | some subject =>
      obtain rfl := mem_singleton.mp htouch
      exact ⟨isNone_iff_eq_none.mp (hs j _ _ hget), subject, rfl⟩
  | renamed project old name => cases hcreate
  | deleted key => cases hcreate

theorem ownerFits_none {next : Option LifecycleEvent} {l : Option Held}
    (h : ownersColumn.Fits k next l none) : OwnerFits l none := by
  rcases h with h | ⟨-, o, ho, -⟩
  · exact h
  · cases ho

theorem ownerFits_backfill {l : Option Held} {subject : Option (Bool × Uuid)} (hl : l.isSome = true)
    (h : OwnerFits l none) : OwnerFits l (some ⟨subject, .backfill⟩) := by
  obtain ⟨held, rfl⟩ := Option.isSome_iff_exists.mp hl
  unfold OwnerFits at h ⊢
  dsimp only at h ⊢
  cases howner : held.owner with
  | some o =>
    rw [howner] at h
    cases h
  | none =>
    intro o ho
    rw [← some.inj ho]

/-- An instance the snapshot has is there at every later cut: what is handled of its name since
would be a create, and the name was not free. -/
theorem Tracked.isSome_cut (h : s.Tracked cluster) (hhandled : s.HandledUpTo .owners taken) {v : ℕ} (hcut : Cut (touches .owners k) (todo .owners) s.log v) (hle : taken ≤ v)
    (hk : ((s.livingAt taken).get k).isSome = true) : ((s.livingAt v).get k).isSome = true := by
  rcases first_between (fun j => ∃ f, s.log[j]? = some f ∧ touches .owners k f) taken v with
    hnone | ⟨c, htc, hcv, ⟨⟨e, st⟩, hget, htouch⟩, hfirst⟩
  · exact isSome_between h.possible hle hcut.le
      (fun j f hj hjv hf htouch => hnone j hj hjv ⟨f, hf, htouch⟩) hk
  · have hcreate : e.isCreate = true := by
      by_contra hnot
      have htodo := (hhandled.iff hget (Bool.not_eq_true _ ▸ hnot)).mpr htc
      have hge := (hcut.iff c _ hget htouch).mp htodo
      omega
    have hsome := isSome_between h.possible htc (le_trans (le_of_lt hcv) hcut.le)
      (fun j f hj hjc hf htouch => hfirst j hj hjc ⟨f, hf, htouch⟩) hk
    rw [(create_touches h.possible hget hcreate htouch).1] at hsome
    cases hsome

theorem Tracked.backfilled (h : s.Tracked cluster) (hhandled : s.HandledUpTo .owners taken)
    (htaken : taken ≤ s.log.length)
    (hk : ((s.livingAt taken).get k).isSome = true) (id : Uuid) :
    ownersColumn.Follows s (recordOwner s.owners k (false, id) .backfill) := by
  intro k'
  by_cases hne : k' ≠ k
  · rw [recordOwner_of_ne hne]
    exact h.owners k'
  obtain rfl := not_not.mp hne
  obtain ⟨v, hcut, hfits⟩ := h.owners k'
  rw [recordOwner_backfill]
  cases hx : s.owners k' with
  | some o =>
    rw [hx] at hfits
    exact ⟨v, hcut, hfits⟩
  | none =>
    rw [hx] at hfits
    rcases le_total v taken with hle | hle
    · -- A create of the name may be what is still to handle: its event takes the owner over.
      rcases first_between (fun j => ∃ f, s.log[j]? = some f ∧ touches .owners k' f) v taken with
        hnone | ⟨c, hvc, hct, ⟨⟨e, st⟩, hget, htouch⟩, hfirst⟩
      · have huntouched : ∀ j f, v ≤ j → j < taken → s.log[j]? = some f → ¬ touches .owners k' f :=
          fun j f hvj hj hf htouch => hnone j hvj hj ⟨f, hf, htouch⟩
        refine ⟨taken, hcut.shift hle htaken huntouched, .inl (ownerFits_backfill hk ?_)⟩
        exact ownerFits_none (Column.fits_between h.possible hle htaken huntouched hfits)
      · have hlen : c ≤ s.log.length := le_trans (le_of_lt hct) htaken
        have htodo : todo .owners (e, st) := (hcut.iff c _ hget htouch).mpr hvc
        have hcreate : e.isCreate = true := by
          by_contra hnot
          have hge := (hhandled.iff hget (Bool.not_eq_true _ ▸ hnot)).mp htodo
          omega
        obtain ⟨-, subject, rfl⟩ := create_touches h.possible hget hcreate htouch
        refine ⟨c, hcut.shift hvc hlen fun j f hvj hj hf htouch => hfirst j hvj hj ⟨f, hf, htouch⟩,
          .inr ⟨⟨subject, ?_⟩, _, rfl, rfl⟩⟩
        unfold event
        rw [hget]
        rfl
    · have hsome := h.isSome_cut hhandled hcut hle hk
      exact ⟨v, hcut, .inl (ownerFits_backfill hsome (ownerFits_none hfits))⟩

theorem Tracked.step {a : ClusterAction} (h : s.Tracked cluster) (hok : s.orderly a = true)
    (hs : s.step cluster a = some t) : t.Tracked cluster := by
  have hpass := h.pass
  cases a with
  | incus e =>
    simp only [ClusterState.step] at hs
    split_ifs at hs with he
    obtain rfl := some.inj hs
    exact h.incus he
  | handle i =>
    simp only [ClusterState.step] at hs
    simp only [orderly] at hok
    split at hs
    case h_2 => cases hs
    case h_1 e stage hi =>
    rw [hi] at hok
    have hfirst : s.First i e stage := of_decide_eq_true hok
    split_ifs at hs with hended
    obtain rfl := some.inj hs
    cases stage with
    | owners => exact h.handle_owners hi hfirst
    | leases => exact h.handle_leases hi hfirst
    | entries => exact h.handle_entries hi hfirst
    | ended => exact absurd rfl hended
  | collect =>
    simp only [ClusterState.step] at hs
    split at hs
    case h_2 => cases hs
    case h_1 hp =>
    obtain rfl := some.inj hs
    exact ⟨h.possible, h.owners, h.leases, h.entries, h.rows, le_rfl,
      fun k => (OrdMap.isSome_get _ k).symm⟩
  | applySnapshot =>
    simp only [ClusterState.step] at hs
    split at hs
    case h_2 => cases hs
    case h_1 snapshot taken hp =>
    rw [hp] at hpass
    obtain rfl := some.inj hs
    exact ⟨h.possible, h.owners, h.leases, h.entries, h.rows, hpass⟩
  | sweep =>
    simp only [ClusterState.step] at hs
    simp only [orderly] at hok
    split at hs
    case h_2 => cases hs
    case h_1 taken hp =>
    rw [hp] at hpass hok
    obtain rfl := some.inj hs
    refine ⟨h.possible, h.owners, h.leases, h.entries, h.rows, hpass, fun r hr hgone k => ?_⟩
    exact h.swept hpass (of_decide_eq_true hok) hr hgone k
  | deleteSwept =>
    simp only [ClusterState.step] at hs
    split at hs
    case h_2 => cases hs
    case h_1 gone taken hp =>
    rw [hp] at hpass
    obtain ⟨hnames, hgone⟩ := hpass
    obtain rfl := some.inj hs
    refine ⟨h.possible, h.owners, h.leases, ?_, h.rows.filter _, hnames⟩
    have hkept : entriesOn cluster (s.entries.filter (·.id ∉ gone)) = entriesOn cluster s.entries := by
      funext k
      unfold entriesOn
      rw [filter_filter]
      refine congrArg _ (filter_congr fun r hr => ?_)
      cases hu : entriesUnder (instancePath cluster k) r with
      | false => exact Bool.false_and _
      | true =>
        have hid : r.id ∉ gone := fun hid => by
          rw [hgone r hr hid k] at hu
          cases hu
        rw [decide_eq_true hid]
        rfl
    show entriesColumn.Follows s _
    rw [hkept]
    exact h.entries
  | orphans placed =>
    simp only [ClusterState.step] at hs
    split at hs
    case h_2 => cases hs
    case h_1 taken hp =>
    rw [hp] at hpass
    obtain rfl := some.inj hs
    refine ⟨h.possible, h.owners, h.leases, h.entries, h.rows, hpass.1, fun k hk => ?_⟩
    exact (hpass.2 k).mp (mem_filter.mp hk).1
  | backfill owner =>
    simp only [ClusterState.step] at hs
    simp only [orderly] at hok
    split at hs
    case h_3 => cases hs
    case h_2 taken hp =>
      obtain rfl := some.inj hs
      exact ⟨h.possible, h.owners, h.leases, h.entries, h.rows, trivial⟩
    case h_1 k orphans taken hp =>
    rw [hp] at hpass hok
    obtain ⟨htaken, horphans⟩ := hpass
    have hrest : ∀ k' ∈ orphans, ((s.livingAt taken).get k').isSome = true := fun k' hk' =>
      horphans k' (mem_cons_of_mem _ hk')
    cases owner with
    | none =>
      obtain rfl := some.inj hs
      exact ⟨h.possible, h.owners, h.leases, h.entries, h.rows, htaken, hrest⟩
    | some id =>
      have hfilled := h.backfilled (of_decide_eq_true hok) htaken (horphans k mem_cons_self) id
      obtain rfl := some.inj hs
      exact ⟨h.possible, hfilled, h.leases, h.entries, h.rows, htaken, hrest⟩
  | fail =>
    obtain rfl := some.inj hs
    exact ⟨h.possible, h.owners, h.leases, h.entries, h.rows, trivial⟩

/-- Nothing is to handle, and each name has what its instance has. -/
structure Clean (cluster : Name) (s : ClusterState) : Prop where
  log : s.log = []
  pass : s.pass = .idle
  owners : ∀ k, s.owners k = (s.start.get k).elim none (·.owner)
  leases : ∀ k, s.leases k = (s.start.get k).elim none (·.lease)
  entries : ∀ k, entriesOn cluster s.entries k = (s.start.get k).elim [] (·.entries)
  rows : RowsOk cluster s.entries

theorem Clean.follows {X : Type} {c : Column X} {t : InstanceKey → X} (h : s.Clean cluster)
    (hfits : ∀ k, c.Fits k none (s.start.get k) (t k)) : c.Follows s t := by
  intro k
  refine ⟨0, ?_, ?_⟩
  · rw [h.log]
    exact .nil
  · have hevent : s.event 0 = none := by
      unfold event
      rw [h.log]
      rfl
    rw [hevent]
    exact hfits k

theorem Clean.tracked (h : s.Clean cluster) : s.Tracked cluster := by
  refine ⟨fun j e stage hj => ?_, h.follows fun k => .inl ?_, h.follows h.leases,
    h.follows h.entries, h.rows, ?_⟩
  · rw [h.log] at hj
    cases hj
  · rw [h.owners k]
    cases s.start.get k with
    | none => rfl
    | some held =>
      unfold OwnerFits
      dsimp only [Option.elim_some]
      cases held.owner with
      | none => exact nofun
      | some o => rfl
  · rw [h.pass]
    trivial

/-- Each instance has its owner, its lease and its entries, and no other name has any. An instance
without an owner may have got one from the backfill. -/
structure Carried (cluster : Name) (s : ClusterState) : Prop where
  free : ∀ k, s.living.get k = none →
    s.owners k = none ∧ s.leases k = none ∧ entriesOn cluster s.entries k = []
  owners : ∀ k held, s.living.get k = some held → ∀ o, held.owner = some o → s.owners k = some o
  backfilled : ∀ k held, s.living.get k = some held → held.owner = none →
    ∀ o, s.owners k = some o → o.source = .backfill
  leases : ∀ k held, s.living.get k = some held → s.leases k = held.lease
  entries : ∀ k held, s.living.get k = some held → entriesOn cluster s.entries k = held.entries

theorem Tracked.carried (h : s.Tracked cluster) (hended : ∀ f ∈ s.log, f.2 = .ended) :
    s.Carried cluster := by
  have hnone : ∀ stage : Stage, stage ≠ .ended → ∀ f ∈ s.log, ¬ todo stage f := by
    intro stage hstage f hf htodo
    unfold todo at htodo
    rw [hended f hf] at htodo
    cases stage with
    | ended => exact hstage rfl
    | owners => exact absurd htodo (by decide)
    | leases => exact absurd htodo (by decide)
    | entries => exact absurd htodo (by decide)
  have howners : ∀ k, OwnerFits (s.living.get k) (s.owners k) := by
    intro k
    rcases h.owners.settled h.possible (hnone _ nofun) k with hfits | ⟨⟨subject, hnext⟩, -⟩
    · exact hfits
    · cases hnext
  have hleases : ∀ k, s.leases k = (s.living.get k).elim none (·.lease) :=
    h.leases.settled h.possible (hnone _ nofun)
  have hentries : ∀ k, entriesOn cluster s.entries k = (s.living.get k).elim [] (·.entries) :=
    h.entries.settled h.possible (hnone _ nofun)
  refine ⟨fun k hk => ?_, fun k held hk o ho => ?_, fun k held hk ho => ?_, fun k held hk => ?_,
    fun k held hk => ?_⟩
  · have hfits := howners k
    rw [hk] at hfits
    rw [hleases, hentries, hk]
    exact ⟨hfits, rfl, rfl⟩
  · have hfits := howners k
    rw [hk] at hfits
    unfold OwnerFits at hfits
    dsimp only at hfits
    rw [ho] at hfits
    exact hfits
  · have hfits := howners k
    rw [hk] at hfits
    unfold OwnerFits at hfits
    dsimp only at hfits
    rw [ho] at hfits
    exact hfits
  · rw [hleases, hk]
    rfl
  · rw [hentries, hk]
    rfl

/-- Renames and deletes keep what an instance has with it: once everything that happened is handled,
each living instance has the owner, the lease and the entries it had, and nothing is left on another
name. -/
theorem renames_keep_what_instances_have {s₀ : ClusterState} (h₀ : s₀.Clean cluster)
    (h : Run (ClusterState.step cluster) (fun s a => s.orderly a = true) s₀ s)
    (hended : ∀ f ∈ s.log, f.2 = .ended) : s.Carried cluster := by
  have htracked := h.invariant h₀.tracked fun _ _ _ hs hok hstep => hs.step hok hstep
  exact htracked.carried hended

end ClusterState

/-! ### A renamed instance -/

def projectA : Name := nameA

/-- What the instance has: an owner, a lease and an entry. -/
def heldI : Held :=
  ⟨some ⟨some (false, userU), .incuscloud⟩, some ⟨userU, some 0, 0, none⟩,
    [(0, .user, userU, "operator")]⟩

def keyI : InstanceKey := ⟨projectA, nameI⟩

def keyJ : InstanceKey := ⟨projectA, ⟨"j", by decide⟩⟩

def oneInstance : ClusterState where
  start := [(keyI, heldI)]
  log := []
  owners k := (OrdMap.get [(keyI, heldI)] k).elim none (·.owner)
  leases k := (OrdMap.get [(keyI, heldI)] k).elim none (·.lease)
  entries := [⟨0, instancePath clusterC.name keyI, .user, userU, "operator"⟩]
  inventory := [keyI]
  pass := .idle

theorem oneInstance_clean : oneInstance.Clean clusterC.name := by
  have hunder : ∀ k, entriesUnder (instancePath clusterC.name k)
      ⟨0, instancePath clusterC.name keyI, .user, userU, "operator"⟩ = true ↔ k = keyI :=
    fun k => entriesUnder_iff rfl
  refine ⟨rfl, rfl, fun _ => rfl, fun _ => rfl, fun k => ?_, ⟨by decide, by decide, ?_⟩⟩
  · show entriesOn clusterC.name [_] k = (OrdMap.get [(keyI, heldI)] k).elim [] (·.entries)
    unfold entriesOn
    rw [OrdMap.get_cons, OrdMap.get_nil]
    by_cases hk : k = keyI
    · rw [filter_cons_of_pos ((hunder k).mpr hk), if_pos hk.symm]
      rfl
    · rw [filter_cons_of_neg fun h => hk ((hunder k).mp h), if_neg (Ne.symm hk)]
      rfl
  · intro r hr k hu
    obtain rfl := mem_singleton.mp hr
    rw [(hunder k).mp hu]

def inventoryPass : List ClusterAction :=
  [.applySnapshot, .sweep, .deleteSwept, .orphans [], .backfill none]

/-- The instance is renamed while a pass reads, and the handler runs after it. -/
theorem renames_keep_what_instances_have_midPass :
    ∃ s, Run (ClusterState.step clusterC.name) (fun s a => s.orderly a = true) oneInstance s ∧
      s.living.get keyJ = some heldI ∧ s.Carried clusterC.name := by
  have hexec : ((Run.exec (ClusterState.step clusterC.name) (fun s a => s.orderly a = true) oneInstance
      ([.collect, .incus (.renamed projectA keyI.name keyJ.name)] ++ inventoryPass ++
        [.handle 0, .handle 0, .handle 0])).map fun s => (s.log.map (·.2), s.living.get keyJ)) =
      some ([.ended], some heldI) := by
    decide
  obtain ⟨s, hs, hshown⟩ := map_eq_some_iff.mp hexec
  obtain ⟨hlog, hliving⟩ := Prod.mk.inj hshown
  have hrun := Run.of_exec .refl hs
  refine ⟨s, hrun, hliving, ClusterState.renames_keep_what_instances_have oneInstance_clean hrun ?_⟩
  intro f hf
  have hmem : f.2 ∈ [Stage.ended] := hlog ▸ mem_map_of_mem hf
  exact mem_singleton.mp hmem

/-- The handler moves the entry while a pass works from the snapshot before the rename: the sweep
deletes it, and the next pass cannot bring it back. -/
theorem sweep_deletes_renamed :
    ¬ ∀ s₀ s : ClusterState, s₀.Clean clusterC.name →
      Run (ClusterState.step clusterC.name) (fun _ _ => True) s₀ s →
      (∀ f ∈ s.log, f.2 = .ended) → s.inventory = s.living.map (·.1) → s.pass = .idle →
      s.Carried clusterC.name := by
  intro h
  have hexec : ((Run.exec (ClusterState.step clusterC.name) (fun _ _ => True) oneInstance
      ([.collect, .incus (.renamed projectA keyI.name keyJ.name), .handle 0, .handle 0, .handle 0] ++
        inventoryPass ++ [.collect] ++ inventoryPass)).map fun s =>
        ((s.log.map (·.2), s.living.get keyJ), (s.inventory, s.living.map (·.1)), s.pass, s.entries)) =
      some (([.ended], some heldI), ([keyJ], [keyJ]), .idle, []) := by
    decide
  obtain ⟨s, hs, hshown⟩ := map_eq_some_iff.mp hexec
  simp only [Prod.mk.injEq] at hshown
  obtain ⟨⟨hlog, hliving⟩, ⟨hinventory, hnames⟩, hpass, hentries⟩ := hshown
  have hended : ∀ f ∈ s.log, f.2 = .ended := by
    intro f hf
    have hmem : f.2 ∈ [Stage.ended] := hlog ▸ mem_map_of_mem hf
    exact mem_singleton.mp hmem
  have hcarried := h oneInstance s oneInstance_clean (Run.of_exec .refl hs) hended
    (hinventory.trans hnames.symm) hpass
  have hkept := hcarried.entries keyJ heldI hliving
  rw [hentries] at hkept
  cases hkept

end IncusCloud.Fleet
