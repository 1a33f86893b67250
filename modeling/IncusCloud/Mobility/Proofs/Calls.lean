import IncusCloud.Mobility.Migrate

/-!
# What the calls of a migration do

One rule for each kind of call, for `wp`: what has to hold of the clusters before it, given what
must hold after it, however it goes. `Kept J` is what the rules for calls without effect ask of a
`J` that goes through them: someone else's instance may appear, and the call is logged. The rules
for calls with an effect ask for less, `Spared J`.
-/

namespace IncusCloud.Mobility

open Lib Handler Option
open Prod (mk.inj)

namespace Clusters

variable {w : Clusters} {q q' : Place} {i : Instance} {job : String}
  {c : Call} {E : JobError → Flags → Clusters → Prop}

@[simp]
theorem get_put : (w.put q i).get q' = if q' = q then some i else w.get q' := OrdMap.get_set _ _ _ _

@[simp]
theorem get_remove : (w.remove q).get q' = if q' = q then none else w.get q' :=
  OrdMap.get_erase _ _ _

@[simp] theorem get_touch {deleted : Bool} : (w.touch q deleted i).get q' = w.get q' := rfl

theorem appear_cases (w : Clusters) (q : Place) (job : String) (a : Option Instance) :
    w.appear q job a = w ∨
      ∃ i, w.appear q job a = w.put q i ∧ w.get q = none ∧ i.tag tagJob ≠ some job := by
  cases a with
  | none => exact .inl rfl
  | some i =>
    simp only [appear]
    split_ifs with h
    · exact .inr ⟨i, rfl, h⟩
    · exact .inl rfl

theorem get_eq_none_of_not_mem_names (h : q.name ∉ w.names q.cluster q.project) :
    w.get q = none := by
  unfold get OrdMap.get
  rw [map_eq_none_iff, List.find?_eq_none]
  intro e he hq
  refine h (List.mem_map.mpr ⟨e, List.mem_filter.mpr ⟨he, ?_⟩, ?_⟩)
  · rw [of_decide_eq_true hq]
    exact decide_eq_true ⟨rfl, rfl⟩
  · rw [of_decide_eq_true hq]

end Clusters

/-- `J` outlives an appearance under the target's name and a call `c` that fails without effect. -/
structure Spared (p : MigratePayload) (job : JobRef) (c : Call) (J : Clusters → Prop) : Prop where
  appear : ∀ w i, w.get p.target = none → i.tag tagJob ≠ some job.id → J w → J (w.put p.target i)
  fail : ∀ w, J w → J { w with log := ⟨c, true, false⟩ :: w.log }

/-- `J` outlives an appearance under the target's name and the call `c`'s entry in the log. -/
structure Kept (p : MigratePayload) (job : JobRef) (c : Call) (J : Clusters → Prop) : Prop where
  appear : ∀ w i, w.get p.target = none → i.tag tagJob ≠ some job.id → J w → J (w.put p.target i)
  enter : ∀ w failed took, J w → J { w with log := ⟨c, failed, took⟩ :: w.log }

theorem Kept.spared {p : MigratePayload} {job : JobRef} {J : Clusters → Prop}
    (h : Kept p job c J) : Spared p job c J := ⟨h.appear, fun w => h.enter w true false⟩

section Rules

variable {site : Site} {p : MigratePayload} {job : JobRef} {I J : Clusters → Prop} {l : Flags}
  {w : Clusters}

theorem met_reply {α : Type} {Q : α → Clusters → Prop} {E : JobError → Clusters → Prop}
    {o : Outcome} {done : Option (α × Clusters)}
    (hfail : I { w with log := ⟨c, true, false⟩ :: w.log } ∧
      E .failed { w with log := ⟨c, true, false⟩ :: w.log })
    (hlate : ∀ a w', done = some (a, w') → o.fails = true →
      I { w' with log := ⟨c, true, true⟩ :: w.log } ∧
        E .failed { w' with log := ⟨c, true, true⟩ :: w.log })
    (hok : ∀ a w', done = some (a, w') → o.fails = false →
      I { w' with log := ⟨c, false, true⟩ :: w.log } ∧
        Q a { w' with log := ⟨c, false, true⟩ :: w.log }) :
    Handler.Met I Q E (w.reply c o done) := by
  unfold Clusters.reply
  match done, hlate, hok with
  | none, _, _ => exact hfail
  | some (a, w'), hlate, hok =>
    cases hf : o.fails
    · exact hok a w' rfl hf
    · cases ht : o.took
      · exact hfail
      · exact hlate a w' rfl hf

theorem wp_step (done : Clusters → Outcome → Option (c.Answer × Clusters))
    {Q : c.Answer → Flags → Clusters → Prop}
    (hc : ∀ w o, answer site p job c w o =
      (w.appear p.target job.id o.appears).reply c o (done (w.appear p.target job.id o.appears) o))
    (happear : ∀ w i, w.get p.target = none → i.tag tagJob ≠ some job.id → J w →
      J (w.put p.target i))
    (hfail : ∀ w, J w → I { w with log := ⟨c, true, false⟩ :: w.log } ∧
      E .failed l { w with log := ⟨c, true, false⟩ :: w.log })
    (hlate : ∀ w o a w', J w → done w o = some (a, w') → o.fails = true →
      I { w' with log := ⟨c, true, true⟩ :: w.log } ∧
        E .failed l { w' with log := ⟨c, true, true⟩ :: w.log })
    (hok : ∀ w o a w', J w → done w o = some (a, w') → o.fails = false →
      I { w' with log := ⟨c, false, true⟩ :: w.log } ∧
        Q a l { w' with log := ⟨c, false, true⟩ :: w.log })
    (h : J w) : wp (world site p job) I Q E (Handler.call c) l w := by
  refine (wp_call c l w).mpr fun o => ?_
  show Handler.Met _ _ _ (answer site p job c w o)
  rw [hc]
  have happ : J (w.appear p.target job.id o.appears) := by
    rcases w.appear_cases p.target job.id o.appears with hw | ⟨i, hw, hfree, htag⟩
    · rwa [hw]
    · rw [hw]
      exact happear w i hfree htag h
  exact met_reply (hfail _ happ) (fun a w' => hlate _ o a w' happ) (fun a w' => hok _ o a w' happ)

theorem wp_effect (done : Clusters → Outcome → Option (c.Answer × Clusters))
    {Q : c.Answer → Flags → Clusters → Prop}
    (hc : ∀ w o, answer site p job c w o =
      (w.appear p.target job.id o.appears).reply c o (done (w.appear p.target job.id o.appears) o))
    (hJ : Spared p job c J) (hfail : ∀ w, J w → I w ∧ E .failed l w)
    (hlate : ∀ w o a w', J w → done w o = some (a, w') → o.fails = true →
      I { w' with log := ⟨c, true, true⟩ :: w.log } ∧
        E .failed l { w' with log := ⟨c, true, true⟩ :: w.log })
    (hok : ∀ w o a w', J w → done w o = some (a, w') → o.fails = false →
      I { w' with log := ⟨c, false, true⟩ :: w.log } ∧
        Q a l { w' with log := ⟨c, false, true⟩ :: w.log })
    (h : J w) : wp (world site p job) I Q E (Handler.call c) l w :=
  wp_step done hc hJ.appear (fun w hw => hfail _ (hJ.fail w hw)) hlate hok h

theorem wp_silent (a : Clusters → c.Answer) {Q : c.Answer → Flags → Clusters → Prop}
    (hc : ∀ w o, answer site p job c w o =
      (w.appear p.target job.id o.appears).silent c o (a (w.appear p.target job.id o.appears)))
    (hJ : Kept p job c J) (hfail : ∀ w, J w → I w ∧ E .failed l w)
    (hok : ∀ w, J w → Q (a w) l { w with log := ⟨c, false, true⟩ :: w.log })
    (h : J w) : wp (world site p job) I Q E (Handler.call c) l w := by
  refine wp_effect (fun w _ => some (a w, w)) hc hJ.spared hfail ?_ ?_ h
  · rintro w o b w' hw hdone -
    obtain ⟨-, rfl⟩ := mk.inj (some.inj hdone)
    exact hfail _ (hJ.enter _ _ _ hw)
  · rintro w o b w' hw hdone -
    obtain ⟨rfl, rfl⟩ := mk.inj (some.inj hdone)
    exact ⟨(hfail _ (hJ.enter _ _ _ hw)).1, hok _ hw⟩

theorem wp_unit (u : c.Answer) {Q : c.Answer → Flags → Clusters → Prop}
    (hc : ∀ w o, answer site p job c w o = (w.appear p.target job.id o.appears).silent c o u)
    (hJ : Kept p job c J) (hfail : ∀ w, J w → I w ∧ E .failed l w) (hok : ∀ w, J w → Q u l w)
    (h : J w) : wp (world site p job) I Q E (Handler.call c) l w :=
  wp_silent (fun _ => u) hc hJ hfail (fun w hw => hok _ (hJ.enter w _ _ hw)) h

variable {Q : Unit → Flags → Clusters → Prop}

theorem wp_progress {stage : String} (hJ : Kept p job (.progress stage) J)
    (hfail : ∀ w, J w → I w ∧ E .failed l w) (hok : ∀ w, J w → Q () l w) (h : J w) :
    wp (world site p job) I Q E (Migration.progress stage) l w :=
  wp_unit (c := Call.progress stage) () (fun _ _ => rfl) hJ hfail hok h

variable {q : Place}

theorem wp_sourceFacts {Q : SourceInstance → Flags → Clusters → Prop}
    (hJ : Kept p job (.sourceFacts q) J) (hfail : ∀ w, J w → I w ∧ E .failed l w)
    (hok : ∀ w s, J w → w.sourceFacts site q = some s →
      Q s l { w with log := ⟨.sourceFacts q, false, true⟩ :: w.log })
    (h : J w) : wp (world site p job) I Q E (Migration.sourceFacts q) l w := by
  refine wp_effect (c := Call.sourceFacts q)
    (fun w _ => (w.sourceFacts site q).map fun s => (s, w)) (fun _ _ => rfl) hJ.spared hfail ?_ ?_ h
  · rintro w o a w' hw hdone -
    obtain ⟨s, -, hpair⟩ := map_eq_some_iff.mp hdone
    obtain ⟨-, rfl⟩ := mk.inj hpair
    exact hfail _ (hJ.enter w _ _ hw)
  · rintro w o a w' hw hdone -
    obtain ⟨s, hs, hpair⟩ := map_eq_some_iff.mp hdone
    obtain ⟨rfl, rfl⟩ := mk.inj hpair
    exact ⟨(hfail _ (hJ.enter w _ _ hw)).1, hok w s hw hs⟩

theorem wp_readInstance {Q : Option Instance → Flags → Clusters → Prop}
    (hJ : Kept p job (.readInstance q) J) (hfail : ∀ w, J w → I w ∧ E .failed l w)
    (hok : ∀ w, J w →
      I { w.verify q p.target with log := ⟨.readInstance q, false, true⟩ :: w.log } ∧
        Q (w.get q) l { w.verify q p.target with log := ⟨.readInstance q, false, true⟩ :: w.log })
    (h : J w) : wp (world site p job) I Q E (Migration.readInstance q) l w := by
  refine wp_effect (c := Call.readInstance q)
    (fun w o => some (w.get q, if o.fails then w else w.verify q p.target)) (fun _ _ => rfl)
    hJ.spared hfail ?_ ?_ h
  · rintro w o a w' hw hdone ho
    obtain ⟨-, rfl⟩ := mk.inj (some.inj hdone)
    rw [ho, if_pos rfl]
    exact hfail _ (hJ.enter w _ _ hw)
  · rintro w o a w' hw hdone ho
    obtain ⟨rfl, rfl⟩ := mk.inj (some.inj hdone)
    rw [ho]
    exact hok w hw

theorem wp_changed (u : c.Answer) (change : Clusters → Option Clusters)
    {Q : c.Answer → Flags → Clusters → Prop}
    (hc : ∀ w o, answer site p job c w o =
      (w.appear p.target job.id o.appears).reply c o
        ((change (w.appear p.target job.id o.appears)).map fun w' => (u, w')))
    (happear : ∀ w i, w.get p.target = none → i.tag tagJob ≠ some job.id → J w →
      J (w.put p.target i))
    (hfail : ∀ w, J w → I { w with log := ⟨c, true, false⟩ :: w.log } ∧
      E .failed l { w with log := ⟨c, true, false⟩ :: w.log })
    (hlate : ∀ w w', J w → change w = some w' →
      I { w' with log := ⟨c, true, true⟩ :: w.log } ∧
        E .failed l { w' with log := ⟨c, true, true⟩ :: w.log })
    (hok : ∀ w w', J w → change w = some w' →
      I { w' with log := ⟨c, false, true⟩ :: w.log } ∧
        Q u l { w' with log := ⟨c, false, true⟩ :: w.log })
    (h : J w) : wp (world site p job) I Q E (Handler.call c) l w := by
  refine wp_step (fun w _ => (change w).map fun w' => (u, w')) hc happear hfail ?_ ?_ h
  · rintro w o a w' hw hdone -
    obtain ⟨w'', hchange, hpair⟩ := map_eq_some_iff.mp hdone
    obtain ⟨-, rfl⟩ := mk.inj hpair
    exact hlate w w'' hw hchange
  · rintro w o a w' hw hdone -
    obtain ⟨w'', hchange, hpair⟩ := map_eq_some_iff.mp hdone
    obtain ⟨rfl, rfl⟩ := mk.inj hpair
    exact hok w w'' hw hchange

theorem wp_change (u : c.Answer) (change : Clusters → Option Clusters)
    {Q : c.Answer → Flags → Clusters → Prop}
    (hc : ∀ w o, answer site p job c w o =
      (w.appear p.target job.id o.appears).reply c o
        ((change (w.appear p.target job.id o.appears)).map fun w' => (u, w')))
    (hJ : Spared p job c J) (hfail : ∀ w, J w → I w ∧ E .failed l w)
    (hlate : ∀ w w', J w → change w = some w' →
      I { w' with log := ⟨c, true, true⟩ :: w.log } ∧
        E .failed l { w' with log := ⟨c, true, true⟩ :: w.log })
    (hok : ∀ w w', J w → change w = some w' →
      I { w' with log := ⟨c, false, true⟩ :: w.log } ∧
        Q u l { w' with log := ⟨c, false, true⟩ :: w.log })
    (h : J w) : wp (world site p job) I Q E (Handler.call c) l w :=
  wp_changed u change hc hJ.appear (fun w hw => hfail _ (hJ.fail w hw)) hlate hok h

theorem wp_orIgnore_setState {action : StateAction}
    (happear : ∀ w i, w.get p.target = none → i.tag tagJob ≠ some job.id → J w →
      J (w.put p.target i))
    (hfail : ∀ w, J w → I { w with log := ⟨.setState q action, true, false⟩ :: w.log } ∧
      Q () l { w with log := ⟨.setState q action, true, false⟩ :: w.log })
    (hdone : ∀ w w' failed, J w → w.setState q action = some w' →
      I { w' with log := ⟨.setState q action, failed, true⟩ :: w.log } ∧
        Q () l { w' with log := ⟨.setState q action, failed, true⟩ :: w.log })
    (h : J w) : wp (world site p job) I Q E
      (Migration.orIgnore (Migration.setState q action)) l w := by
  unfold Migration.orIgnore
  rw [wp_tryCatch]
  exact wp_changed (c := Call.setState q action) () (·.setState q action) (fun _ _ => rfl) happear hfail
    (fun w w' hw hset => hdone w w' true hw hset) (fun w w' hw hset => hdone w w' false hw hset) h

theorem wp_orIgnore_delete
    (happear : ∀ w i, w.get p.target = none → i.tag tagJob ≠ some job.id → J w →
      J (w.put p.target i))
    (hfail : ∀ w, J w → I { w with log := ⟨.delete q, true, false⟩ :: w.log } ∧
      Q () l { w with log := ⟨.delete q, true, false⟩ :: w.log })
    (hdone : ∀ w w' failed, J w → w.delete q = some w' →
      I { w' with log := ⟨.delete q, failed, true⟩ :: w.log } ∧
        Q () l { w' with log := ⟨.delete q, failed, true⟩ :: w.log })
    (h : J w) : wp (world site p job) I Q E (Migration.orIgnore (Migration.delete q)) l w := by
  unfold Migration.orIgnore
  rw [wp_tryCatch]
  exact wp_changed (c := Call.delete q) () (·.delete q) (fun _ _ => rfl) happear hfail
    (fun w w' hw hdel => hdone w w' true hw hdel) (fun w w' hw hdel => hdone w w' false hw hdel) h

theorem wp_setState {action : StateAction}
    (hJ : Spared p job (.setState q action) J)
    (hfail : ∀ w, J w → I w ∧ E .failed l w)
    (hlate : ∀ w w', J w → w.setState q action = some w' →
      I { w' with log := ⟨.setState q action, true, true⟩ :: w.log } ∧
        E .failed l { w' with log := ⟨.setState q action, true, true⟩ :: w.log })
    (hok : ∀ w w', J w → w.setState q action = some w' →
      I { w' with log := ⟨.setState q action, false, true⟩ :: w.log } ∧
        Q () l { w' with log := ⟨.setState q action, false, true⟩ :: w.log })
    (h : J w) : wp (world site p job) I Q E (Migration.setState q action) l w :=
  wp_change (c := Call.setState q action) () (·.setState q action) (fun _ _ => rfl) hJ hfail hlate
    hok h

theorem wp_delete (hJ : Spared p job (.delete q) J)
    (hfail : ∀ w, J w → I w ∧ E .failed l w)
    (hlate : ∀ w w', J w → w.delete q = some w' →
      I { w' with log := ⟨.delete q, true, true⟩ :: w.log } ∧
        E .failed l { w' with log := ⟨.delete q, true, true⟩ :: w.log })
    (hok : ∀ w w', J w → w.delete q = some w' →
      I { w' with log := ⟨.delete q, false, true⟩ :: w.log } ∧
        Q () l { w' with log := ⟨.delete q, false, true⟩ :: w.log })
    (h : J w) : wp (world site p job) I Q E (Migration.delete q) l w :=
  wp_change (c := Call.delete q) () (·.delete q) (fun _ _ => rfl) hJ hfail hlate hok h

theorem wp_transfer {s t : Place} {request : TargetRequest} {live : Bool} {transport : Transport}
    {Q : Transport → Flags → Clusters → Prop}
    (hJ : Spared p job (.transfer s t request live transport) J)
    (hfail : ∀ w, J w → I w ∧ E .failed l w)
    (hlate : ∀ w left, J w → w.get t = none → ∀ log, log = ⟨.transfer s t request live transport, true, true⟩ :: w.log →
      I { w.receive t request left with transferred := false, log := log } ∧
        E .failed l { w.receive t request left with transferred := false, log := log })
    (hok : ∀ w left how, J w → w.get t = none →
      ∀ log, log = ⟨.transfer s t request live transport, false, true⟩ :: w.log →
        I { w.receive t request left with transferred := true, log := log } ∧
          Q how l { w.receive t request left with transferred := true, log := log })
    (h : J w) :
    wp (world site p job) I Q E (Migration.transfer s t request live transport) l w := by
  refine wp_effect (c := Call.transfer s t request live transport)
    (fun w o =>
      if w.get t = none ∧ (w.get s).isSome then
        some (o.transport, { w.receive t request o.left with transferred := !o.fails })
      else none)
    (fun w o => ?_) hJ hfail ?_ ?_ h
  · show (if _ then _ else _) = _
    split_ifs <;> rfl
  · rintro w o a w' hw hdone ho
    split_ifs at hdone with hfree
    obtain ⟨-, rfl⟩ := mk.inj (some.inj hdone)
    rw [ho]
    exact hlate w o.left hw hfree.1 _ rfl
  · rintro w o a w' hw hdone ho
    split_ifs at hdone with hfree
    obtain ⟨rfl, rfl⟩ := mk.inj (some.inj hdone)
    rw [ho]
    exact hok w o.left o.transport hw hfree.1 _ rfl

end Rules

end IncusCloud.Mobility
