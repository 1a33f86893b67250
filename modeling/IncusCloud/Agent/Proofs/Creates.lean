import IncusCloud.Agent.Proofs.MetalLB
import Mathlib.Data.Fintype.Defs

/-!
# A create and the cluster that took its name

A create that fails deletes by name what another create of that name may have made. If no rollback
begins where the name has a record, and no record is written during another one's rollback, then the
cluster that was created stays (`created_once_and_kept`).
-/

namespace IncusCloud.Agent

open Lib Handler Option
open Function (update update_self update_of_ne)

variable {ι : Type} [DecidableEq ι] {i : ι} {name : String} {w w' : AgentState ι} {l : RouteLocals}
  {body : CreateClusterBody}

/-- No rollback begins where the name has a record, and no record is written during another one's
rollback. -/
def undoneAlone (i : ι) (c : AgentCall) (w : AgentState ι) : Prop :=
  match c with
  | .undo true => w.records.getByName (w.acting i) = none
  | .createRecord _ _ => ∀ j, j ≠ i → w.undoing j = false
  | _ => True

instance [Fintype ι] (i : ι) (c : AgentCall) (w : AgentState ι) :
    Decidable (undoneAlone i c w) := by
  unfold undoneAlone
  split <;> infer_instance

structure Kept (body : CreateClusterBody) (w w' : AgentState ι) : Prop where
  cluster : body.name ∈ w.clusters → body.name ∈ w'.clusters
  secret : (w.secrets.get (secretNameFor body.name)).isSome = true →
    (w'.secrets.get (secretNameFor body.name)).isSome = true
  project : ∀ p, w.projects.get body.projectName = some p →
    ∃ p', w'.projects.get body.projectName = some p' ∧ p.Within p'

omit [DecidableEq ι] in
theorem Grows.kept (h : Grows w w') (body : CreateClusterBody) : Kept body w w' :=
  ⟨fun hc => h.clusters hc, fun hs => h.secrets _ hs, fun p hp => h.projects _ p hp⟩

/-- The name is created once at most, and no rollback runs beside its record. -/
structure CreateInv (name : String) (w : AgentState ι) : Prop where
  once : w.createdBy.length ≤ 1
  there : w.createdBy ≠ [] → w.records.getByName name ≠ none
  quiet : w.records.getByName name ≠ none → ∀ i, w.undoing i = false

def creating (ι : Type) (name : String) : Protocol ι AgentCall (AgentState ι) JobStep where
  ok := undoneAlone
  okOutside _ _ := True
  inv := CreateInv name
  rely i w w' := w'.acting i = w.acting i ∧ w'.undoing i = w.undoing i ∧ w.createdBy ⊆ w'.createdBy
  guar i w w' :=
    (∀ j, j ≠ i → w'.acting j = w.acting j ∧ w'.undoing j = w.undoing j) ∧
      w.createdBy ⊆ w'.createdBy ∧
      (w.undoing i = false → Grows w w')

/-- The request is about the cluster, and does or does not undo. -/
structure Doing (i : ι) (name : String) (undoing : Bool) (w : AgentState ι) : Prop where
  acting : w.acting i = name
  undoing : w.undoing i = undoing

section

variable {undoing : Bool}

omit [DecidableEq ι] in
theorem CreateInv.own (h : CreateInv name w) (hown : Own w w') : CreateInv name w' := by
  refine ⟨?_, ?_, ?_⟩
  · rw [hown.createdBy]
    exact h.once
  · rw [hown.createdBy, hown.records]
    exact h.there
  · rw [hown.records, hown.undoing]
    exact h.quiet

omit [DecidableEq ι] in
theorem Doing.own (h : Doing i name undoing w) (hown : Own w w') : Doing i name undoing w' := by
  refine ⟨?_, ?_⟩
  · rw [hown.acting]
    exact h.acting
  · rw [hown.undoing]
    exact h.undoing

omit [DecidableEq ι] in
theorem Doing.rely (hrely : (creating ι name).rely i w w') (h : Doing i name undoing w) :
    Doing i name undoing w' :=
  ⟨hrely.1.trans h.acting, hrely.2.1.trans h.undoing⟩

omit [DecidableEq ι] in
theorem guar_own (hown : Own w w') (hgrows : w.undoing i = false → Grows w w') :
    (creating ι name).guar i w w' := by
  refine ⟨fun j _ => ⟨?_, ?_⟩, ?_, hgrows⟩
  · rw [hown.acting]
  · rw [hown.undoing]
  · rw [hown.createdBy]
    exact List.Subset.refl _

theorem maintains_gentle {c : AgentCall} (hc : c.external = true) (hkeep : c.deletes = false) :
    Maintains agent (creating ι name) i (Doing i name false) (Handler.call c : Route c.Answer) := by
  refine .call (fun _ _ => Doing.rely) fun w o r hw hinv _ hr => ?_
  obtain rfl := some.inj hr
  have hown : Own w (agentAnswer i c w o).2 := own_of_external hc
  exact ⟨CreateInv.own hinv hown, guar_own hown fun _ => grows_of_external hc hkeep, hw.own hown⟩

theorem gentle_creating (project : String) :
    Gentle (creating ι name) i project (Doing i name false) :=
  fun _ hc _ hkeep => maintains_gentle hc hkeep

theorem outer_creating (project : String) :
    Outer (creating ι name) i project (Doing i name true) := by
  intro c hc _
  refine .call (fun _ _ => Doing.rely) fun w o r hw hinv _ hr => ?_
  obtain rfl := some.inj hr
  have hown : Own w (agentAnswer i c w o).2 := own_of_external hc
  refine ⟨CreateInv.own hinv hown, guar_own hown fun hfalse => ?_, hw.own hown⟩
  rw [hw.undoing] at hfalse
  cases hfalse

end

/-! ### The calls of a create -/

theorem maintains_reserved : Maintains agent (creating ι name) i (Doing i name false)
    (Route.reserved name) := by
  refine .call (c := AgentCall.reserved name) (fun _ _ => Doing.rely) fun w o r hw hinv _ hr => ?_
  obtain rfl := some.inj hr
  exact ⟨hinv, guar_own (.refl w) fun _ => .refl w, hw⟩

theorem refusal_ne_created (t : ClusterRepo) (body : CreateClusterBody) :
    refusal t body ≠ some .created := by
  unfold refusal
  split_ifs
  · exact fun h => (nomatch h)
  · intro h
    obtain ⟨conflict, -, herror⟩ := map_eq_some_iff.mp h
    cases herror

theorem safe_precheck (hbody : body.name = name) (hw : w.undoing i = false) :
    safe agent (creating ι name)
      i (fun refused _ w => refused ≠ some .created ∧ Doing i name false w)
      (fun _ _ _ => True) (Route.precheck body) l w := by
  refine safe_call (c := AgentCall.precheck body) (J := fun w => w.undoing i = false)
    (fun w w' hrely hw => hrely.2.1.trans hw) (fun w o r hw hinv _ hr => ?_) hw
  obtain rfl := some.inj hr
  replace hinv : CreateInv name w := hinv
  have hbegun : Doing i name false (w.begins i body.name) :=
    ⟨(acting_begins w i body.name).trans hbody, hw⟩
  have hothers : ∀ j, j ≠ i → (w.begins i body.name).acting j = w.acting j ∧
    (w.begins i body.name).undoing j = w.undoing j := by
    intro j hj
    refine ⟨?_, rfl⟩
    show update w.acting i body.name j = w.acting j
    rw [update_of_ne hj]
  have hgrows : Grows w (w.begins i body.name) := .of_eq rfl rfl rfl
  exact ⟨⟨hothers, List.Subset.refl _, fun _ => hgrows⟩, ⟨hinv.once, hinv.there, hinv.quiet⟩,
    refusal_ne_created w.records body, hbegun⟩

theorem safe_createRecord {endpointHost : Option String} (hbody : body.name = name)
    (hw : Doing i name false w) :
    safe agent (creating ι name) i (fun _ _ w => (i, name) ∈ w.createdBy) (fun _ _ _ => True)
      (Route.createRecord body endpointHost) l w := by
  refine safe_call (c := AgentCall.createRecord body endpointHost) (fun _ _ => Doing.rely)
    (fun w o r hw hinv hok hr => ?_) hw
  obtain rfl := some.inj hr
  replace hinv : CreateInv name w := hinv
  replace hok : ∀ j, j ≠ i → w.undoing j = false := hok
  unfold agentAnswer
  dsimp only
  split
  · exact ⟨guar_own (.refl w) fun _ => .refl w, hinv, trivial⟩
  · rename_i t ht
    obtain ⟨hfree, hrows⟩ := ClusterRepo.create_eq_some ht
    have hnone : w.records.getByName name = none := by
      refine ClusterRepo.getByName_eq_none.mpr fun r hr => ?_
      rw [← hbody]
      exact hfree r hr
    have hfirst : w.createdBy = [] := by
      by_contra hne
      exact hinv.there hne hnone
    have hthere : t.getByName name = some (newRecord body endpointHost) := by
      refine ClusterRepo.getByName_eq_some.mpr ⟨?_, hbody⟩
      rw [hrows]
      exact List.mem_cons_self
    have hquiet : ∀ j, w.undoing j = false := by
      intro j
      by_cases hj : j = i
      · rw [hj]
        exact hw.undoing
      · exact hok j hj
    refine ⟨⟨fun j _ => ⟨rfl, rfl⟩, List.subset_cons_self _ _, fun _ => .of_eq rfl rfl rfl⟩,
      ⟨?_, ?_, fun _ => hquiet⟩, ?_⟩
    · show ((i, body.name) :: w.createdBy).length ≤ 1
      rw [hfirst]
      exact Nat.le_refl 1
    · intro _
      show t.getByName name ≠ none
      rw [hthere]
      exact some_ne_none _
    · show (i, name) ∈ (i, body.name) :: w.createdBy
      rw [hbody]
      exact List.mem_cons_self

theorem safe_undo {was on : Bool} (hw : Doing i name was w) :
    safe agent (creating ι name) i (fun _ _ => Doing i name on) (fun _ _ _ => True)
      (Route.undo on) l w := by
  refine safe_call (c := AgentCall.undo on) (fun _ _ => Doing.rely)
    (fun w o r hw hinv hok hr => ?_) hw
  obtain rfl := some.inj hr
  replace hinv : CreateInv name w := hinv
  have hothers : ∀ j, j ≠ i → update w.undoing i on j = w.undoing j := fun j hj =>
    update_of_ne hj _ _
  have hgrows : Grows w { w with undoing := update w.undoing i on } := .of_eq rfl rfl rfl
  refine ⟨⟨fun j hj => ⟨rfl, hothers j hj⟩, List.Subset.refl _, fun _ => hgrows⟩,
    ⟨hinv.once, hinv.there, fun hrecord j => ?_⟩, ⟨hw.acting, update_self _ _ _⟩⟩
  show update w.undoing i on j = false
  by_cases hj : j = i
  · rw [hj, update_self]
    cases on with
    | false => rfl
    | true =>
      replace hok : w.records.getByName (w.acting i) = none := hok
      rw [hw.acting] at hok
      exact absurd hok hrecord
  · rw [hothers j hj]
    exact hinv.quiet hrecord j

/-! ### Creates -/

theorem safe_rollback (hw : Doing i name false w) :
    safe agent (creating ι name) i (fun _ _ => Doing i name false) (fun _ _ _ => True)
      (rollback body) l w := by
  have houter : Outer (creating ι name) i body.projectName (Doing i name true) :=
    outer_creating body.projectName
  have hcluster : Maintains agent (creating ι name) i (Doing i name true)
      (tryCatch (deleteClusterCrd body.name) fun _ => pure ()) :=
        .tryCatch houter.deleteClusterCrd fun _ => .pure ()
  have hproject : Maintains agent (creating ι name) i (Doing i name true)
      (tryCatch (deleteProject body.projectName) fun _ => pure ()) :=
        .tryCatch houter.deleteProject fun _ => .pure ()
  refine safe_seq (safe_undo hw) fun _ l w hw => ?_
  rw [safe_bind]
  refine hcluster.safe hw (fun _ l w hw => ?_) fun _ _ _ _ => trivial
  rw [safe_bind]
  exact hproject.safe hw (fun _ l w hw => safe_undo hw) fun _ _ _ _ => trivial

theorem safe_create (hbody : body.name = name) (hw : Doing i name false w) :
    safe agent (creating ι name) i (fun a _ w => a = .created → (i, name) ∈ w.createdBy)
      (fun _ _ _ => True)
      (create body) l w := by
  have hreserved : Maintains agent (creating ι name) i (Doing i name false)
    (Route.reserved body.name) := by
    rw [hbody]
    exact maintains_reserved
  have hpost : Maintains agent (creating ι name) i (Doing i name false)
      (Route.postProject body.projectName (buildProjectConfig body.projectMetadata)) :=
    maintains_gentle (c := .postProject body.projectName (buildProjectConfig body.projectMetadata))
      rfl rfl
  have hsteps := maintains_failure ((gentle_creating body.projectName).createSteps hpost hreserved)
  unfold create
  rw [safe_bind]
  refine hsteps.safe hw (fun failed l w hw => ?_) fun _ _ _ _ => trivial
  cases failed with
  | some e =>
    rw [safe_bind]
    exact safe_mono (fun _ l w _ h => (nomatch h)) (fun _ _ _ h => h) (safe_rollback hw)
  | none =>
    rw [safe_bind, safe_locals, safe_bind]
    exact safe_mono (fun _ l w hw _ => hw) (fun _ _ _ h => h) (safe_createRecord hbody hw)

theorem safe_postCluster (hbody : body.name = name) (hw : w.undoing i = false) :
    safe agent (creating ι name) i (fun a _ w => a = .created → (i, name) ∈ w.createdBy)
      (fun _ _ _ => True)
      (postCluster body) l w := by
  have hready : Maintains agent (creating ι name) i (Doing i name false) Route.capnReady :=
    maintains_gentle (c := .capnReady) rfl rfl
  refine safe_seq (safe_precheck hbody hw) fun refused l w hbegun => ?_
  obtain ⟨hrefused, hw⟩ := hbegun
  cases refused with
  | some reply => exact fun hreply => absurd (congrArg some hreply) hrefused
  | none =>
    rw [safe_bind]
    refine hready.safe hw (fun ready l w hw => ?_) fun _ _ _ _ => trivial
    split_ifs
    · exact safe_create hbody hw
    · exact fun h => (nomatch h)

/-! ### Runs of creates -/

abbrev AgentProcs (ι : Type) :=
  Procs ι AgentCall AgentCall.Answer AgentError (AgentState ι)
    (Except AgentError AgentReply × RouteLocals)

def Created (s : AgentProcs ι) (i : ι) : Prop := (s.progs i).returned.map (·.1) =
    some (.ok .created)

instance (s : AgentProcs ι) (i : ι) : Decidable (Created s i) := by
  unfold Created
  infer_instance

def OfCreate (name : String) (i : ι) (r : Except AgentError AgentReply × RouteLocals)
    (w : AgentState ι) : Prop :=
  r.1 = .ok .created → (i, name) ∈ w.createdBy

theorem compatible_creating : Team.Compatible agent (creating ι name) := by
  refine ⟨fun i j w w' hij _ _ hguar => ?_, fun x w w' hinv _ hw' => ?_⟩
  · obtain ⟨hothers, hcreated, -⟩ := hguar
    obtain ⟨hacting, hundoing⟩ := hothers j (Ne.symm hij)
    exact ⟨hacting, hundoing, hcreated⟩
  · obtain ⟨-, hbeside⟩ := grows_jobStep hw'
    replace hinv : CreateInv name w := hinv
    refine ⟨⟨?_, ?_, ?_⟩, fun j => ⟨?_, ?_, ?_⟩⟩
    · rw [hbeside.createdBy]
      exact hinv.once
    · rw [hbeside.createdBy, hbeside.records]
      exact hinv.there
    · rw [hbeside.records, hbeside.undoing]
      exact hinv.quiet
    · rw [hbeside.acting]
    · rw [hbeside.undoing]
    · rw [hbeside.createdBy]
      exact List.Subset.refl _

section

variable {s t : AgentProcs ι}

omit [DecidableEq ι] in
theorem ofCreate_rely {r : Except AgentError AgentReply × RouteLocals}
    (hrely : (creating ι name).rely i w w')
    (h : OfCreate name i r w) : OfCreate name i r w' := fun hr => hrely.2.2 (h hr)

theorem Created.mem (hsound : Team.Sound agent (creating ι name) (OfCreate name) s)
    (hi : Created s i) :
    (i, name) ∈ s.world.createdBy := by
  obtain ⟨r, hr, hcreated⟩ := map_eq_some_iff.mp hi
  exact (hsound.safe i).returned hr hcreated

theorem grows_step (hsound : Team.Sound agent (creating ι name) (OfCreate name) s)
    (hthere : s.world.createdBy ≠ [])
    {a : ProcAction ι AgentOutcome JobStep} (hok : okStep undoneAlone (fun _ _ => True) s a)
    (ht : agent.step s a = some t) :
    Team.Sound agent (creating ι name) (OfCreate name) t ∧ s.world.createdBy ⊆ t.world.createdBy ∧
      Grows s.world t.world := by
  cases a with
  | call i o =>
    obtain ⟨hsound', hguar⟩ := hsound.call compatible_creating (fun _ _ _ _ => ofCreate_rely) hok ht
    have hinv : CreateInv name s.world := hsound.inv
    have hquiet : s.world.undoing i = false := hinv.quiet (hinv.there hthere) i
    exact ⟨hsound', hguar.2.1, hguar.2.2 hquiet⟩
  | outside x =>
    have hsound' := hsound.outside compatible_creating (fun _ _ _ _ => ofCreate_rely) trivial ht
    obtain ⟨w', hw', rfl⟩ := map_eq_some_iff.mp ht
    obtain ⟨hgrows, hbeside⟩ := grows_jobStep hw'
    refine ⟨hsound', ?_, hgrows⟩
    show s.world.createdBy ⊆ w'.createdBy
    rw [hbeside.createdBy]
    exact List.Subset.refl _

theorem grows_run (hsound : Team.Sound agent (creating ι name) (OfCreate name) s)
    (hthere : s.world.createdBy ≠ [])
    (h : Run agent.step (okStep undoneAlone fun _ _ => True) s t) :
    Team.Sound agent (creating ι name) (OfCreate name) t ∧ s.world.createdBy ⊆ t.world.createdBy ∧
      Grows s.world t.world := by
  induction h with
  | refl => exact ⟨hsound, List.Subset.refl _, .refl _⟩
  | tail a _ hok hs ih =>
    obtain ⟨hsound', hsub, hgrows⟩ := ih
    have hthere' := List.ne_nil_of_length_pos (List.length_pos_of_mem (hsub (List.head_mem hthere)))
    obtain ⟨hsound'', hsub', hgrows'⟩ := grows_step hsound' hthere' hok hs
    exact ⟨hsound'', List.Subset.trans hsub hsub', hgrows.trans hgrows'⟩

/-- However creates of one name overlap and fail: if no rollback begins where the name has a record
and no record is written during another one's rollback, at most one create returns 201, and from
then on its cluster's objects and its project stay. -/
theorem created_once_and_kept {bodies : ι → CreateClusterBody}
    (hbodies : ∀ i, (bodies i).name = name)
    (hcreated : w.createdBy = []) (hundoing : ∀ i, w.undoing i = false)
    (hs : Run agent.step (okStep undoneAlone fun _ _ => True)
      (allRequests w fun i => .post (bodies i)) s)
    (hi : Created s i) (ht : Run agent.step (okStep undoneAlone fun _ _ => True) s t) :
    (∀ j, Created t j → j = i) ∧ Kept (bodies i) s.world t.world := by
  have hinv : CreateInv name w := by
    refine ⟨?_, fun hne => absurd hcreated hne, fun _ => hundoing⟩
    rw [hcreated]
    exact Nat.zero_le 1
  have hstart : Team.Sound agent (creating ι name) (OfCreate name)
    (allRequests w fun i => .post (bodies i)) := by
    refine ⟨hinv, fun i => ?_⟩
    have hsafe : safe agent (creating ι name)
      i (fun a _ w => a = .created → (i, name) ∈ w.createdBy)
      (fun _ _ _ => True) (postCluster (bodies i)) {} w := safe_postCluster (hbodies i) (hundoing i)
    refine Prog.safe_mono (fun r w hr => ?_) hsafe
    obtain ⟨a, l⟩ := r
    cases a with
    | ok a => exact fun hok => hr (Except.ok.inj hok)
    | error e => exact fun hok => (nomatch hok)
  have hsound : Team.Sound agent (creating ι name) (OfCreate name) s :=
    Team.run_safe compatible_creating (fun _ _ _ _ => ofCreate_rely) hstart hs
  have hmem := hi.mem hsound
  obtain ⟨hsound', hsub, hgrows⟩ := grows_run hsound (List.ne_nil_of_mem hmem) ht
  refine ⟨fun j hj => ?_, hgrows.kept (bodies i)⟩
  have hinv' : CreateInv name t.world := hsound'.inv
  have hlength : t.world.createdBy.length = 1 :=
    Nat.le_antisymm hinv'.once (List.length_pos_of_mem (hsub hmem))
  obtain ⟨x, hx⟩ := List.length_eq_one_iff.mp hlength
  have hmem' := hsub hmem
  have hjmem := hj.mem hsound'
  rw [hx, List.mem_singleton] at hmem' hjmem
  exact congrArg Prod.fst (hjmem.trans hmem'.symm)

def twoCreates (_ : Bool) : CreateClusterBody := ⟨"lab", "v1.31.0", none, none⟩

def admittedFirst : List (ProcAction Bool AgentOutcome JobStep) :=
    .call true {} :: List.replicate 11 (.call false {})

/-- The first create of two returns 201, and the other one's record is refused. -/
theorem second_create_keeps : ∃ s t,
    Run agent.step (okStep undoneAlone fun _ _ => True)
        (allRequests (.started Bool .empty) fun i => .post (twoCreates i)) s ∧
      Run agent.step (okStep undoneAlone fun _ _ => True) s t ∧ Created s false ∧
      (t.progs true).returned.isSome = true ∧
      (∀ j, Created t j → j = false) ∧ Kept (twoCreates false) s.world t.world := by
  have hrun : ∃ s, Run agent.step (okStep undoneAlone fun _ _ => True)
      (allRequests (.started Bool .empty) fun i => .post (twoCreates i)) s ∧ Created s false ∧
        (Run.exec agent.step (okStep undoneAlone fun _ _ => True)
          s (List.replicate 9 (.call true {}))).any
          (fun t => decide ((t.progs true).returned.isSome = true)) = true := by
    apply Run.exists_of_exec admittedFirst
    decide
  obtain ⟨s, hs, hcreated, hrest⟩ := hrun
  obtain ⟨t, ht, hreturned⟩ := Run.exists_of_exec _ hrest
  exact ⟨s, t, hs, ht, hcreated, hreturned,
    created_once_and_kept (fun _ => rfl) rfl (fun _ => rfl) hs hcreated ht⟩

/-- After the first create returned 201 the other one fails, and its rollback deletes the cluster. -/
theorem failed_create_deletes : ∃ s t,
    Run agent.step (okStep (fun _ _ _ => True) fun _ _ => True)
        (allRequests (.started Bool .empty) fun i => .post (twoCreates i)) s ∧
      Run agent.step (okStep (fun _ _ _ => True) fun _ _ => True) s t ∧ Created s false ∧
      ¬ Kept (twoCreates false) s.world t.world := by
  have hrun : ∃ s, Run agent.step (okStep (fun _ _ _ => True) fun _ _ => True)
      (allRequests (.started Bool .empty) fun i => .post (twoCreates i)) s ∧ Created s false ∧
        "lab" ∈ s.world.clusters ∧
        (Run.exec agent.step (okStep (fun _ _ _ => True) fun _ _ => True) s
          [.call true {}, .call true { error := some (.failed "incus is not reachable") },
            .call true {},
            .call true {}]).any (fun t => decide ("lab" ∉ t.world.clusters)) = true := by
    apply Run.exists_of_exec admittedFirst
    decide
  obtain ⟨s, hs, hcreated, hthere, hrest⟩ := hrun
  obtain ⟨t, ht, hgone⟩ := Run.exists_of_exec _ hrest
  exact ⟨s, t, hs, ht, hcreated, fun hkept => hgone (hkept.cluster hthere)⟩

end

end IncusCloud.Agent
