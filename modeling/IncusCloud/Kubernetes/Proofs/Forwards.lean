import IncusCloud.Kubernetes.Endpoint
import IncusCloud.Lib.Text

/-!
# Sharing one forward

Calls for different clusters on one address each read the forward and write it back. As long as
nobody else writes it between a call's read and its write, no port is lost: the ports that are not
these clusters' stay, and each cluster has one port or none, as its last call asked.

A call knows what it read; that it still is there is `Read`, which the others leave alone because
their writes count up.

Of one call alone: it refuses a port whose `listen_port` is the text of its own, and sees no range
and no list that covers it (`ownPortOnly_iff`).
-/

namespace IncusCloud.Kubernetes

open Lib Handler List
open Option (some.inj)

variable {ps : List Port} {id : String} {f : ForwardSpec} {w w' : Address}

/-! ### Marks -/

def markOf (description : String) : Option String :=
  if "incuscloud k8s ".toList <+: description.toList then
    some (String.ofList (description.toList.drop "incuscloud k8s ".toList.length))
  else none

theorem markOf_eq_some {d : String} : markOf d = some id ↔ d = portDescription id := by
  unfold markOf portDescription
  constructor
  · intro h
    split_ifs at h with hmark
    obtain rfl := some.inj h
    obtain ⟨r, hr⟩ := hmark
    apply String.toList_injective
    rw [String.toList_append, ← hr, drop_left]
    exact congrArg _ String.toList_ofList.symm
  · rintro rfl
    rw [String.toList_append, if_pos (prefix_append _ _), drop_left, String.ofList_toList]

theorem portDescription_inj {id id' : String} (h : portDescription id = portDescription id') :
    id = id' :=
  some.inj ((markOf_eq_some.mpr rfl).symm.trans (markOf_eq_some.mpr h))

def portsOf (id : String) (ports : List Port) : List Port :=
  ports.filter fun p => p.description = portDescription id

def foreignPorts (calls : String → List PortCall) (ports : List Port) : List Port :=
  ports.filter fun p => (markOf p.description).all fun id => (calls id).isEmpty

def Settled (id : String) (cs : List PortCall) (ports : List Port) : Prop :=
  match cs.getLast? with
  | none => True
  | some (.ensure f) => ∃ p, portsOf id ports = [p] ∧ f.ours.same p
  | some (.remove _) => portsOf id ports = []

theorem portsOf_otherPorts {id' : String} (h : id ≠ id') :
    portsOf id (otherPorts id' ps) = portsOf id ps := by
  unfold portsOf otherPorts
  rw [filter_filter]
  refine filter_congr fun p _ => ?_
  by_cases hp : p.description = portDescription id
  · have hne : p.description ≠ portDescription id' := by
      rw [hp]
      exact fun heq => h (portDescription_inj heq)
    simp [hp, hp ▸ hne]
  · simp [hp]

theorem foreignPorts_otherPorts {calls : String → List PortCall} (h : calls id ≠ []) :
    foreignPorts calls (otherPorts id ps) = foreignPorts calls ps := by
  unfold foreignPorts otherPorts
  rw [filter_filter]
  refine filter_congr fun p _ => ?_
  by_cases hp : p.description = portDescription id
  · have hmark : markOf p.description = some id := markOf_eq_some.mpr hp
    simp [hmark, h]
  · simp [hp]

theorem portsOf_of_otherPorts_eq (h : otherPorts id ps = ps) : portsOf id ps = [] := by
  unfold portsOf
  rw [filter_eq_nil_iff]
  intro p hp
  simpa using filter_eq_self.mp h p hp

theorem portsOf_otherPorts_self : portsOf id (otherPorts id ps) = [] := by
  apply portsOf_of_otherPorts_eq
  unfold otherPorts
  rw [filter_filter]
  simp

theorem otherPorts_idem : otherPorts id (otherPorts id ps) = otherPorts id ps := by
  unfold otherPorts
  rw [filter_filter]
  simp

/-! ### The port's place -/

theorem placePort_cons (ours p : Port) :
    placePort ours (p :: ps) =
      if p.description = ours.description then ours :: ps else p :: placePort ours ps := by
  unfold placePort
  rw [List.findIdx?_cons]
  by_cases h : p.description = ours.description
  · simp [h]
  · cases hi : ps.findIdx? fun q => q.description = ours.description with
    | none => simp [h]
    | some i => simp [h]

theorem otherPorts_placePort : otherPorts f.id (placePort f.ours ps) = otherPorts f.id ps := by
  induction ps with
  | nil => simp [placePort, otherPorts, ForwardSpec.ours]
  | cons p ps ih =>
    rw [placePort_cons]
    unfold otherPorts at ih ⊢
    split_ifs with h
    · have hp : p.description = portDescription f.id := h
      simp [hp, ForwardSpec.ours]
    · rw [filter_cons, filter_cons, ih]

theorem portsOf_placePort (h : (portsOf f.id ps).length ≤ 1) :
    portsOf f.id (placePort f.ours ps) = [f.ours] := by
  induction ps with
  | nil => simp [placePort, portsOf, ForwardSpec.ours]
  | cons p ps ih =>
    rw [placePort_cons]
    unfold portsOf at ih h ⊢
    by_cases hp : p.description = portDescription f.id
    · -- The port is in front, so there is no other one.
      have hrest : ps.filter (fun q => decide (q.description = portDescription f.id)) = [] := by
        rw [filter_cons_of_pos (by simp [hp])] at h
        exact eq_nil_of_length_eq_zero (by simpa using h)
      rw [if_pos (by rw [hp]; rfl), filter_cons_of_pos (by simp [ForwardSpec.ours]), hrest]
    · rw [filter_cons_of_neg (by simp [hp])] at h
      have hne : ¬ p.description = f.ours.description := hp
      rw [if_neg hne, filter_cons_of_neg (by simp [hp])]
      exact ih h

theorem portsOf_eq_singleton {p : Port} (h : (portsOf id ps).length ≤ 1)
    (hp : (ps.find? fun q => q.description = portDescription id) = some p) :
    portsOf id ps = [p] := by
  rw [← List.head?_filter] at hp
  obtain ⟨rest, hrest⟩ := List.head?_eq_some_iff.mp hp
  have hall : portsOf id ps = p :: rest := hrest
  rw [hall] at h ⊢
  have hnil : rest = [] := eq_nil_of_length_eq_zero (by simpa using h)
  rw [hnil]

/-! ### What the calls do and leave alone -/

def undisturbed (i : String) (c : ForwardCall) (w : Address) : Prop :=
  match c with
  | .get => True
  | _ => w.readAt i = w.writes

instance (i : String) (c : ForwardCall) (w : Address) : Decidable (undisturbed i c w) := by
  cases c <;> unfold undisturbed <;> infer_instance

structure Advances (w w' : Address) : Prop where
  writes : w.writes ≤ w'.writes
  forward : w'.writes = w.writes → w'.forward = w.forward

/-- The step leaves every port but those of `i`. -/
structure OwnOnly (i : String) (w w' : Address) : Prop extends Advances w w' where
  others : otherPorts i w'.ports = otherPorts i w.ports
  readAt : ∀ j, j ≠ i → w'.readAt j = w.readAt j

/-- The step leaves the ports of `i`. -/
structure Leaves (i : String) (w w' : Address) : Prop extends Advances w w' where
  own : portsOf i w'.ports = portsOf i w.ports
  readAt : w'.readAt i = w.readAt i

/-- The ports that are none of these clusters' are those of the start, and no cluster has two. -/
structure PortsInv (calls : String → List PortCall) (start : List Port) (w : Address) : Prop where
  foreign : foreignPorts calls w.ports = foreignPorts calls start
  single : ∀ i, calls i ≠ [] → (portsOf i w.ports).length ≤ 1

def sharing (calls : String → List PortCall) (start : List Port) :
    Protocol String ForwardCall Address Empty where
  ok := undisturbed
  okOutside _ _ := True
  inv := PortsInv calls start
  rely := Leaves
  guar := OwnOnly

variable {calls : String → List PortCall} {start : List Port} {i : String}

theorem compatible_sharing : Team.Compatible forwarding (sharing calls start) := by
  constructor
  · rintro i j w w' hij - - h
    refine ⟨h.toAdvances, ?_, h.readAt j (Ne.symm hij)⟩
    have hports := congrArg (portsOf j) h.others
    rwa [portsOf_otherPorts (Ne.symm hij), portsOf_otherPorts (Ne.symm hij)] at hports
  · intro x
    exact x.elim

variable {g : Option Forward}

theorem write_own (hi : calls i ≠ []) (hinv : PortsInv calls start w)
    (hothers : otherPorts i (w.write g).ports = otherPorts i w.ports)
    (hsingle : (portsOf i (w.write g).ports).length ≤ 1) :
    PortsInv calls start (w.write g) ∧ OwnOnly i w (w.write g) := by
  have hadv : Advances w (w.write g) := by
    refine ⟨Nat.le_succ _, fun h => ?_⟩
    exact absurd h (Nat.succ_ne_self _)
  refine ⟨⟨?_, fun j hj => ?_⟩, ⟨hadv, hothers, fun _ _ => rfl⟩⟩
  · rw [← hinv.foreign, ← foreignPorts_otherPorts hi, hothers, foreignPorts_otherPorts hi]
  · by_cases hij : j = i
    · rw [hij]
      exact hsingle
    · rw [← portsOf_otherPorts hij, hothers, portsOf_otherPorts hij]
      exact hinv.single j hj

/-- What the call of `i` has read is still there, unless the forward was written since. -/
structure Read (i : String) (x : Option Forward) (w : Address) : Prop where
  before : w.readAt i ≤ w.writes
  same : w.readAt i = w.writes → w.forward = x

variable {x : Option Forward}

theorem Read.leaves (h : Read i x w) (hw : Leaves i w w') : Read i x w' := by
  have hbefore := h.before
  have hwrites := hw.writes
  refine ⟨by rw [hw.readAt]; omega, fun heq => ?_⟩
  rw [hw.readAt] at heq
  have hsame : w'.writes = w.writes := by omega
  rw [hw.forward hsame]
  exact h.same (by omega)

theorem safe_write {c : ForwardCall} {x g : Option Forward} (hi : calls i ≠ [])
    {Q : c.Answer → Unit → Address → Prop} (u : c.Answer)
    (hc : ∀ w, undisturbed i c w → w.readAt i = w.writes)
    (hanswer : ∀ w o r, w.forward = x → Address.answer i c w o = r →
      r.2 = w ∧ (∃ e, r.1 = .error e) ∨ r.2 = w.write g ∧ (r.1 = .ok u ∨ ∃ e, r.1 = .error e))
    (hothers : otherPorts i ((g.map (·.ports)).getD []) = otherPorts i ((x.map (·.ports)).getD []))
    (hsingle : (portsOf i ((x.map (·.ports)).getD [])).length ≤ 1 →
      (portsOf i ((g.map (·.ports)).getD [])).length ≤ 1)
    (hQ : (portsOf i ((x.map (·.ports)).getD [])).length ≤ 1 → ∀ w, w.forward = g → Q u () w)
    (hw : Read i x w) :
    safe forwarding (sharing calls start) i Q (fun _ _ _ => True) (Handler.call c) () w := by
  refine safe_call (J := Read i x) (fun w w' hrely h => h.leaves hrely) ?_ hw
  intro w' o r hread hinv hok hr
  have hthere : w'.forward = x := hread.same (hc w' hok)
  have hports : w'.ports = (x.map (·.ports)).getD [] := by rw [← hthere]; rfl
  have hfirst : (portsOf i ((x.map (·.ports)).getD [])).length ≤ 1 := by
    rw [← hports]
    exact hinv.single i hi
  obtain ⟨hinv', hguar'⟩ := write_own (g := g) hi hinv
    (show otherPorts i ((g.map (·.ports)).getD []) = otherPorts i w'.ports by rw [hports, hothers])
    (show (portsOf i ((g.map (·.ports)).getD [])).length ≤ 1 from hsingle hfirst)
  have hstay : OwnOnly i w' w' := ⟨⟨Nat.le_refl _, fun _ => rfl⟩, rfl, fun _ _ => rfl⟩
  obtain ⟨a, v⟩ := r
  rcases hanswer w' o _ hthere (some.inj hr) with ⟨hv, e, he⟩ | ⟨hv, he⟩
  · dsimp only at hv he
    subst hv he
    exact ⟨hstay, hinv, trivial⟩
  · dsimp only at hv he
    subst hv
    refine ⟨hguar', hinv', ?_⟩
    rcases he with rfl | ⟨e, rfl⟩
    · exact hQ hfirst _ rfl
    · exact trivial

theorem answer_change {o : ForwardOutcome}
    {r : Except ForwardError Unit × Address} (h : w.change g o = r) :
    r.2 = w ∧ (∃ e, r.1 = .error e) ∨ r.2 = w.write g ∧ (r.1 = .ok () ∨ ∃ e, r.1 = .error e) := by
  unfold Address.change at h
  split_ifs at h with hfails htook
  · exact .inr ⟨by rw [← h], .inr ⟨_, by rw [← h]⟩⟩
  · exact .inl ⟨by rw [← h], _, by rw [← h]⟩
  · exact .inr ⟨by rw [← h], .inl (by rw [← h])⟩

variable {Q : Unit → Unit → Address → Prop}

theorem safe_post (hi : calls i ≠ []) {g : Forward}
    (hothers : otherPorts i g.ports = []) (hsingle : (portsOf i g.ports).length ≤ 1)
    (hQ : ∀ w, w.forward = some g → Q () () w) (hw : Read i none w) :
    safe forwarding (sharing calls start) i Q (fun _ _ _ => True) (Forwarding.post g) () w := by
  refine safe_write (c := .post g) (x := none) (g := some g) hi () (fun _ h => h) ?_ hothers
    (fun _ => hsingle) (fun _ => hQ) hw
  intro w o r hfree hr
  simp only [Address.answer, hfree] at hr
  exact answer_change hr

theorem safe_put (hi : calls i ≠ []) {x g : Forward}
    (hothers : otherPorts i g.ports = otherPorts i x.ports)
    (hsingle : (portsOf i x.ports).length ≤ 1 → (portsOf i g.ports).length ≤ 1)
    (hQ : (portsOf i x.ports).length ≤ 1 → ∀ w, w.forward = some g → Q () () w)
    (hw : Read i (some x) w) :
    safe forwarding (sharing calls start) i Q (fun _ _ _ => True) (Forwarding.put g) () w := by
  refine safe_write (c := .put g) (x := some x) (g := some g) hi ()
    (fun _ h => h) ?_ hothers hsingle
    hQ hw
  intro w o r hthere hr
  simp only [Address.answer, hthere] at hr
  exact answer_change hr

theorem safe_delete (hi : calls i ≠ []) {x : Forward}
    (hothers : otherPorts i x.ports = []) (hQ : ∀ w, w.forward = none → Q () () w)
    (hw : Read i (some x) w) :
    safe forwarding (sharing calls start) i Q (fun _ _ _ => True) Forwarding.delete () w := by
  refine safe_write (c := .delete) (x := some x) (g := none) hi () (fun _ h => h) ?_ hothers.symm
    (fun _ => Nat.zero_le _) (fun _ => hQ) hw
  intro w o r hthere hr
  simp only [Address.answer, hthere] at hr
  exact answer_change hr

theorem safe_getForward {Q : Option Forward → Unit → Address → Prop}
    (hQ : ∀ w, PortsInv calls start w → Read i w.forward w → Q w.forward () w) :
    safe forwarding (sharing calls start) i Q (fun _ _ _ => True) getForward () w := by
  unfold getForward
  rw [safe_tryCatch, safe_bind]
  refine safe_call (c := ForwardCall.get) (J := fun _ => True) (fun _ _ _ _ => trivial) ?_ trivial
  intro w o r _ hinv _ hr
  replace hr := some.inj hr
  have hread : OwnOnly i w (w.read i) :=
    ⟨⟨Nat.le_refl _, fun _ => rfl⟩, rfl, fun j hj => Function.update_of_ne hj _ _⟩
  have hinv' : PortsInv calls start (w.read i) := ⟨hinv.foreign, hinv.single⟩
  have hfresh : Read i w.forward (w.read i) := by
    refine ⟨?_, fun _ => rfl⟩
    show Function.update w.readAt i w.writes i ≤ w.writes
    exact Nat.le_of_eq (Function.update_self _ _ _)
  have hq : Q w.forward () (w.read i) := hQ _ hinv' hfresh
  simp only [Address.answer] at hr
  split_ifs at hr with hfails
  · subst hr
    refine ⟨⟨⟨Nat.le_refl _, fun _ => rfl⟩, rfl, fun _ _ => rfl⟩, hinv, ?_⟩
    show safe _ _ _ _ _ (if _ then _ else _) () w
    rw [if_neg (by decide)]
    exact trivial
  · cases hf : w.forward with
    | some f =>
      rw [hf] at hr hq
      subst hr
      exact ⟨hread, hinv', hq⟩
    | none =>
      rw [hf] at hr hq
      subst hr
      refine ⟨hread, hinv', ?_⟩
      show safe _ _ _ _ _ (if _ then _ else _) () _
      rw [if_pos rfl]
      exact hq

theorem safe_ensureForward (hi : calls f.id ≠ []) :
    safe forwarding (sharing calls start) f.id
      (fun _ _ w => ∃ p, portsOf f.id w.ports = [p] ∧ f.ours.same p) (fun _ _ _ => True)
      (ensureForward f) () w := by
  have hsame : f.ours.same f.ours := by simp [Port.same]
  unfold ensureForward
  rw [safe_bind]
  refine safe_getForward fun w hinv hread => ?_
  cases hf : w.forward with
  | none =>
    rw [hf] at hread
    show safe _ _ _ _ _ (createForward f) () w
    unfold createForward
    rw [safe_bind]
    have hmine : portsOf f.id [f.ours] = [f.ours] := by simp [portsOf, ForwardSpec.ours]
    refine safe_post hi (by simp [otherPorts, ForwardSpec.ours])
      (by rw [hmine]; exact Nat.le_refl _)
      (fun w hw => ⟨f.ours, ?_, hsame⟩) hread
    rw [Address.ports, hw]
    exact hmine
  | some existing =>
    rw [hf] at hread
    show safe _ _ _ _ _ (updateForward f existing) () w
    have hports : w.ports = existing.ports := by rw [Address.ports, hf]; rfl
    have hsingle : (portsOf f.id existing.ports).length ≤ 1 := hports ▸ hinv.single f.id hi
    unfold updateForward
    cases clashing f.ours existing.ports with
    | some clash => exact trivial
    | none =>
      split_ifs with hfound
      · -- The port is there already.
        obtain ⟨p, hp, hpsame⟩ := (Option.any_eq_true _ _).mp hfound
        refine ⟨p, ?_, hpsame⟩
        rw [hports]
        exact portsOf_eq_singleton hsingle hp
      · rw [safe_bind]
        have hmine := portsOf_placePort hsingle
        refine safe_put hi otherPorts_placePort (fun _ => ?_)
          (fun _ w hw => ⟨f.ours, ?_, hsame⟩) hread
        · rw [hmine]
          exact Nat.le_refl _
        · rw [Address.ports, hw]
          exact hmine

theorem safe_removeForward (hi : calls f.id ≠ []) :
    safe forwarding (sharing calls start) f.id
      (fun _ _ w => portsOf f.id w.ports = []) (fun _ _ _ => True) (removeForward f) () w := by
  unfold removeForward
  rw [safe_bind]
  refine safe_getForward fun w hinv hread => ?_
  cases hf : w.forward with
  | none =>
    show portsOf f.id w.ports = []
    rw [Address.ports, hf]
    rfl
  | some existing =>
    rw [hf] at hread
    show safe _ _ _ _ _ (clearForward f existing) () w
    have hports : w.ports = existing.ports := by rw [Address.ports, hf]; rfl
    unfold clearForward
    dsimp only
    split_ifs with hlength hempty
    · -- Nothing was taken out.
      show portsOf f.id w.ports = []
      rw [hports]
      apply portsOf_of_otherPorts_eq
      unfold otherPorts at hlength ⊢
      exact filter_eq_self.mpr (length_filter_eq_length_iff.mp hlength)
    · refine safe_delete hi hempty.1 (fun w hw => ?_) hread
      rw [Address.ports, hw]
      rfl
    · refine safe_put hi otherPorts_idem (fun _ => ?_) (fun _ w hw => ?_) hread
      · show (portsOf f.id (otherPorts f.id existing.ports)).length ≤ 1
        rw [portsOf_otherPorts_self]
        exact Nat.zero_le _
      · rw [Address.ports, hw]
        exact portsOf_otherPorts_self

theorem safe_run (c : PortCall) (hid : c.id = i) (hi : calls i ≠ []) :
    safe forwarding (sharing calls start) i (fun _ _ w => Settled i [c] w.ports)
      (fun _ _ _ => True) c.run () w := by
  cases c with
  | ensure f =>
    obtain rfl : f.id = i := hid
    show safe _ _ _ _ _ (ensureForward f >>= fun _ => pure ()) () w
    rw [safe_bind]
    exact safe_ensureForward hi
  | remove f =>
    obtain rfl : f.id = i := hid
    exact safe_removeForward hi

theorem safe_runAll (cs : List PortCall) (c : PortCall) (hids : ∀ d ∈ c :: cs, d.id = i)
    (hi : calls i ≠ []) :
    safe forwarding (sharing calls start) i (fun _ _ w => Settled i (c :: cs) w.ports)
      (fun _ _ _ => True) (runAll (c :: cs)) () w := by
  induction cs generalizing c w with
  | nil =>
    show safe _ _ _ _ _ (c.run >>= fun _ => pure ()) () w
    rw [safe_bind]
    exact safe_run c (hids c mem_cons_self) hi
  | cons d cs ih =>
    show safe _ _ _ _ _ (c.run >>= fun _ => runAll (d :: cs)) () w
    refine safe_seq (safe_run c (hids c mem_cons_self) hi) fun _ _ w _ => ?_
    have hrest := ih d (fun e he => hids e (mem_cons_of_mem _ he)) (w := w)
    simpa only [Settled, List.getLast?_cons_cons] using hrest

/-! ### Every run -/

def allCalls (calls : String → List PortCall) (w : Address) :
    Procs String ForwardCall ForwardCall.Answer ForwardError Address
      (Except ForwardError Unit × Unit) :=
  ⟨w, fun i => runAll (calls i) ()⟩

def endedWell (p :
    Prog ForwardCall ForwardCall.Answer ForwardError (Except ForwardError Unit × Unit)) :
    Bool :=
  match p.returned with
  | some (.ok _, _) => true
  | _ => false

def endState (calls : String → List PortCall) (i : String) (b : Except ForwardError Unit × Unit)
    (w : Address) : Prop :=
  match b.1 with
  | .ok _ => Settled i (calls i) w.ports
  | .error _ => True

theorem Settled.leaves {cs : List PortCall} (h : Settled i cs w.ports) (hw : Leaves i w w') :
    Settled i cs w'.ports := by
  unfold Settled at h ⊢
  rw [hw.own]
  exact h

theorem sound_allCalls {w₀ : Address} (hids : ∀ i, ∀ c ∈ calls i, c.id = i)
    (hsingle : ∀ i, calls i ≠ [] → (portsOf i w₀.ports).length ≤ 1) :
    Team.Sound forwarding (sharing calls w₀.ports) (endState calls) (allCalls calls w₀) := by
  refine ⟨⟨rfl, hsingle⟩, fun i => ?_⟩
  show Prog.safe _ _ _ _ (runAll (calls i) ()) w₀
  cases hcs : calls i with
  | nil =>
    show Settled i (calls i) w₀.ports
    rw [hcs]
    exact trivial
  | cons c cs =>
    have hi : calls i ≠ [] := by
      rw [hcs]
      exact cons_ne_nil c cs
    have hids' : ∀ d ∈ c :: cs, d.id = i := hcs ▸ hids i
    refine Prog.safe_mono ?_ (safe_runAll cs c hids' hi)
    rintro ⟨b, _⟩ w hend
    cases b with
    | ok u =>
      show Settled i (calls i) w.ports
      rw [hcs]
      exact hend
    | error e => exact trivial

/-- Once all calls have ended without error, each cluster has the port its last call asked for or
none, and the other ports are as they were, if no call wrote the forward between another's read and
write. -/
theorem shared_forward_keeps_ports {w₀ : Address} {calls : String → List PortCall}
    {s : Procs String ForwardCall ForwardCall.Answer ForwardError Address
      (Except ForwardError Unit × Unit)}
    (hids : ∀ i, ∀ c ∈ calls i, c.id = i)
    (hsingle : ∀ i, calls i ≠ [] → (portsOf i w₀.ports).length ≤ 1)
    (hrun : Run forwarding.step (okStep undisturbed fun _ _ => True) (allCalls calls w₀) s)
    (hend : ∀ i, calls i ≠ [] → endedWell (s.progs i)) :
    foreignPorts calls s.world.ports = foreignPorts calls w₀.ports ∧
      ∀ i, calls i ≠ [] → Settled i (calls i) s.world.ports := by
  have hstable : ∀ i b w w', Leaves i w w' → endState calls i b w → endState calls i b w' := by
    rintro i ⟨b, _⟩ w w' hw h
    cases b with
    | ok u => exact Settled.leaves h hw
    | error e => exact trivial
  have hsound := Team.run_safe (P := sharing calls w₀.ports) compatible_sharing hstable
    (sound_allCalls hids hsingle) hrun
  refine ⟨hsound.inv.foreign, fun i hi => ?_⟩
  have hended := hend i hi
  unfold endedWell at hended
  split at hended
  · rename_i u v hret
    exact (hsound.safe i).returned hret
  · cases hended

/-! ### Two clusters -/

/-- Two clusters whose calls share an address that has a port of the operator's. -/
def operatorsPort : Port := ⟨"vpn", "udp", "51820", "51820", "10.0.0.9", []⟩
def specOf (id : String) (port : ℕ) : ForwardSpec :=
    ⟨"br0", "", "192.0.2.1", port, "10.0.0." ++ id, id⟩

def twoClusters : String → List PortCall
  | "1" => [.ensure (specOf "1" 30001)]
  | "2" => [.ensure (specOf "2" 30002)]
  | _ => []

def operatorsForward : Address := ⟨some ⟨"", [], [operatorsPort]⟩, 0, fun _ => 0⟩

theorem twoClusters_cases {i : String} (h : twoClusters i ≠ []) : i = "1" ∨ i = "2" := by
  unfold twoClusters at h
  split at h
  · exact .inl rfl
  · exact .inr rfl
  · exact absurd rfl h

theorem twoClusters_ids : ∀ i, ∀ c ∈ twoClusters i, c.id = i := by
  intro i c hc
  rcases twoClusters_cases (ne_nil_of_mem hc) with rfl | rfl
  · rw [mem_singleton.mp hc]
    rfl
  · rw [mem_singleton.mp hc]
    rfl

theorem operatorsForward_single :
    ∀ i, twoClusters i ≠ [] → (portsOf i operatorsForward.ports).length ≤ 1 := by
  intro i hi
  rcases twoClusters_cases hi with rfl | rfl
  · decide
  · decide

/-- What is looked at: the ports, and whether the calls have ended. -/
structure SharedView where
  ports : List Port
  first : Bool
  second : Bool
  deriving DecidableEq

def viewOf (s : Procs String ForwardCall ForwardCall.Answer ForwardError Address
    (Except ForwardError Unit × Unit)) : SharedView :=
  ⟨s.world.ports, endedWell (s.progs "1"), endedWell (s.progs "2")⟩

def went : ForwardOutcome := ⟨false, false⟩

/-- One after the other, both get their port. -/
theorem both_ports_one_after_the_other :
    ∃ s, Run forwarding.step (okStep undisturbed fun _ _ => True)
        (allCalls twoClusters operatorsForward) s ∧
      s.world.ports = [operatorsPort, (specOf "1" 30001).ours, (specOf "2" 30002).ours] ∧
      (foreignPorts twoClusters s.world.ports = foreignPorts twoClusters operatorsForward.ports ∧
        ∀ i, twoClusters i ≠ [] → Settled i (twoClusters i) s.world.ports) := by
  have hexec : (Run.exec forwarding.step (okStep undisturbed fun _ _ => True)
      (allCalls twoClusters operatorsForward)
      [.call "1" went, .call "1" went, .call "2" went, .call "2" went]).map viewOf =
      some ⟨[operatorsPort, (specOf "1" 30001).ours, (specOf "2" 30002).ours], true, true⟩ := by
    decide
  obtain ⟨s, hs, hview⟩ := Option.map_eq_some_iff.mp hexec
  have hrun := Run.of_exec .refl hs
  have hend : ∀ i, twoClusters i ≠ [] → endedWell (s.progs i) := by
    intro i hi
    rcases twoClusters_cases hi with rfl | rfl
    · exact congrArg SharedView.first hview
    · exact congrArg SharedView.second hview
  exact ⟨s, hrun, congrArg SharedView.ports hview,
    shared_forward_keeps_ports twoClusters_ids operatorsForward_single hrun hend⟩

/-- Both read the forward before either writes it: the first one's port is lost. -/
theorem port_lost_between_read_and_write :
    ∃ s, Run forwarding.step (okStep (fun _ _ _ => True) fun _ _ => True)
        (allCalls twoClusters operatorsForward) s ∧
      (∀ i, twoClusters i ≠ [] → endedWell (s.progs i)) ∧
      s.world.ports = [operatorsPort, (specOf "2" 30002).ours] ∧
      ¬ Settled "1" (twoClusters "1") s.world.ports := by
  have hexec : (Run.exec forwarding.step (okStep (fun _ _ _ => True) fun _ _ => True)
      (allCalls twoClusters operatorsForward)
      [.call "1" went, .call "2" went, .call "1" went, .call "2" went]).map viewOf =
      some ⟨[operatorsPort, (specOf "2" 30002).ours], true, true⟩ := by
    decide
  obtain ⟨s, hs, hview⟩ := Option.map_eq_some_iff.mp hexec
  have hports : s.world.ports = [operatorsPort, (specOf "2" 30002).ours] :=
    congrArg SharedView.ports hview
  refine ⟨s, Run.of_exec .refl hs, ?_, hports, ?_⟩
  · intro i hi
    rcases twoClusters_cases hi with rfl | rfl
    · exact congrArg SharedView.first hview
    · exact congrArg SharedView.second hview
  · rintro ⟨p, hp, -⟩
    have hnone : portsOf "1" s.world.ports = [] := by
      rw [hports]
      decide
    rw [hnone] at hp
    cases hp

/-! ### One call alone -/

def ForwardCall.changes : ForwardCall → Bool
  | get => false
  | _ => true

def alone (i : String) : World ForwardCall ForwardCall.Answer ForwardError Address ForwardOutcome :=
  ⟨Address.answer i⟩

variable {α : Type}

/-- A call from `w` that is over: how it ended, the address after it, and what it sent. -/
def Ends (m : Forwarding α) (i : String) (w : Address) (r : Except ForwardError α) (w' : Address)
    (log : List (Entry ForwardCall)) : Prop :=
  ∃ os, (m ()).result (alone i).logged (w, []) os = some ((r, ()), (w', log))

abbrev surely (i : String) (Q : Except ForwardError α → Address → List (Entry ForwardCall) → Prop)
    (m : Forwarding α) (w : Address) (log : List (Entry ForwardCall)) : Prop :=
  wp (alone i).logged (fun _ => True) (fun a _ s => Q (.ok a) s.1 s.2)
    (fun e _ s => Q (.error e) s.1 s.2)
    m () (w, log)

variable {log : List (Entry ForwardCall)}

theorem Ends.meets {m : Forwarding α} {r : Except ForwardError α}
    {Q : Except ForwardError α → Address → List (Entry ForwardCall) → Prop}
    (h : Ends m id w r w' log)
    (hm : surely id Q m w []) : Q r w' log := by
  obtain ⟨os, hos⟩ := h
  have hend := (wp_iff_result _ _ _).mp hm os r () (w', log) hos
  cases r with
  | ok a => exact hend
  | error e => exact hend

theorem surely_getForward {m : Option Forward → Forwarding α}
    {Q : Except ForwardError α → Address → List (Entry ForwardCall) → Prop}
    (hfailed : Q (.error .failed) w (log ++ [(.get, false)]))
    (hread : ∀ there, surely id Q (m w.forward) (w.read id) (log ++ [(.get, there)])) :
    surely id Q (getForward >>= m) w log := by
  unfold surely
  rw [wp_bind]
  unfold getForward
  rw [wp_tryCatch, wp_bind]
  refine (wp_call ForwardCall.get () _).mpr fun o => ?_
  by_cases hfails : o.fails = true
  · have hanswer : (alone id).logged.answer .get (w, log) o =
      (.error .failed, w, log ++ [(.get, false)]) := by
      simp [World.logged, alone, Address.answer, hfails, returned]
    rw [hanswer]
    refine ⟨trivial, ?_⟩
    show wp _ _ _ _ (if _ then _ else _) () _
    rw [if_neg (by decide)]
    exact hfailed
  · cases hf : w.forward with
    | some f =>
      have hanswer : (alone id).logged.answer .get (w, log) o =
        (.ok f, w.read id, log ++ [(.get, true)]) := by
        simp [World.logged, alone, Address.answer, hfails, hf, returned]
      rw [hf] at hread
      rw [hanswer]
      exact ⟨trivial, hread true⟩
    | none =>
      have hanswer : (alone id).logged.answer .get (w, log) o =
          (.error (.cluster 404), w.read id, log ++ [(.get, false)]) := by
        simp [World.logged, alone, Address.answer, hfails, hf, returned]
      rw [hf] at hread
      rw [hanswer]
      refine ⟨trivial, ?_⟩
      show wp _ _ _ _ (if _ then _ else _) () _
      rw [if_pos rfl]
      exact hread false

theorem surely_change {c : ForwardCall} {k : c.Answer → Forwarding α}
    {Q : Except ForwardError α → Address → List (Entry ForwardCall) → Prop}
    (hfailed : ∀ v log, Q (.error .failed) v log) (u : c.Answer)
    (hanswer : ∀ o, Address.answer id c w o = (.error .failed, if o.took then w.write g else w) ∨
      Address.answer id c w o = (.ok u, w.write g))
    (hk : ∀ log, surely id Q (k u) (w.write g) log) : surely id Q (Handler.call c >>= k) w log := by
  unfold surely
  rw [wp_bind]
  refine (wp_call c () _).mpr fun o => ?_
  rcases hanswer o with ho | ho
  · have hlogged : (alone id).logged.answer c (w, log) o =
        (.error .failed, if o.took then w.write g else w, log ++ [(c, false)]) := by
      simp [World.logged, alone, ho, returned]
    rw [hlogged]
    exact ⟨trivial, hfailed _ _⟩
  · have hlogged : (alone id).logged.answer c (w, log) o =
      (.ok u, w.write g, log ++ [(c, true)]) := by
      simp [World.logged, alone, ho, returned]
    rw [hlogged]
    exact ⟨trivial, hk _⟩

theorem change_cases (g : Option Forward) (o : ForwardOutcome) :
    w.change g o = (.error .failed, if o.took then w.write g else w) ∨
      w.change g o = (.ok (), w.write g) := by
  by_cases hfails : o.fails = true
  · exact .inl (if_pos hfails)
  · exact .inr (if_neg hfails)

/-! ### A cluster's own port -/

def portsThere (x : Option Forward) : List Port := (x.map (·.ports)).getD []

def portNumber (text : String) : Option ℕ :=
  if text ≠ "" ∧ text.toList.all Char.isDigit = true then some (decimal text.toList) else none

/-- Whether one of the numbers and ranges that are listed covers `n`. -/
def listens (listenPort : String) (n : ℕ) : Bool :=
  (split ',' listenPort).any fun part =>
    match (split '-' part).map portNumber with
    | [some a] => a = n
    | [some a, some b] => a ≤ n && n ≤ b
    | _ => false

def Covered (f : ForwardSpec) (x : Option Forward) : Prop :=
  ∃ p ∈ portsThere x, p.description ≠ portDescription f.id ∧ p.protocol = "tcp" ∧
    listens p.listenPort f.port = true

/-- A port that is not the cluster's has the very text of its number. -/
def SameText (f : ForwardSpec) (x : Option Forward) : Prop :=
  ∃ p ∈ portsThere x, p.description ≠ portDescription f.id ∧ p.listenPort = toString f.port

/-- What is there once the cluster's port is wanted: the others in their places, and one of the
cluster's. -/
structure Ensured (f : ForwardSpec) (x : Option Forward) (g : Forward) : Prop where
  inPlace : ∀ (i : ℕ) (p : Port), (portsThere x)[i]? = some p →
    p.description ≠ portDescription f.id →
    g.ports[i]? = some p
  others : otherPorts f.id g.ports = otherPorts f.id (portsThere x)
  own : ∃ p, portsOf f.id g.ports = [p] ∧ p.protocol = "tcp" ∧ p.listenPort = toString f.port ∧
    p.targetAddress = f.target ∧ p.targetPort = "6443"
  description : ∀ e, x = some e → g.description = e.description
  config : ∀ e, x = some e → g.config = e.config
  created : x = none → g.description = forwardDescription

def withoutOwn (f : ForwardSpec) (x : Option Forward) : Option Forward :=
  x.bind fun e =>
    if otherPorts f.id e.ports = [] ∧ e.description = forwardDescription then none
    else some { e with ports := otherPorts f.id e.ports }

/-- Calls that run alone change no port but that of `f`. -/
structure OwnPortOnly (f : ForwardSpec) (x : Option Forward) : Prop where
  ensures : ∀ w r w' log, w.forward = x → Ends (ensureForward f) f.id w (.ok r) w' log →
    ∃ g, w'.forward = some g ∧ Ensured f x g
  again : ∀ w r w' log, w.forward = x → Ends (ensureForward f) f.id w (.ok r) w' log →
    ∀ r₂ w₂ log₂, Ends (ensureForward f) f.id w' r₂ w₂ log₂ →
      (r₂ = .ok .unchanged ∨ r₂ = .error .failed) ∧ w₂.forward = w'.forward
  removes : ∀ w r w' log, w.forward = x → Ends (ensureForward f) f.id w (.ok r) w' log →
    ∀ r₂ w₂ log₂, Ends (removeForward f) f.id w' r₂ w₂ log₂ →
      r₂ = .ok () ∧ w₂.forward = withoutOwn f x ∨ r₂ = .error .failed
  refuses : Covered f x → ∀ w r w' log, w.forward = x → Ends (ensureForward f) f.id w r w' log →
    (∃ e, r = .error e) ∧ (∀ c ∈ log, c.1.changes = false) ∧ w'.forward = x

theorem getElem?_placePort {ours p : Port} {i : ℕ} (h : ps[i]? = some p)
    (hp : p.description ≠ ours.description) :
    (placePort ours ps)[i]? = some p := by
  induction ps generalizing i with
  | nil => cases h
  | cons q ps ih =>
    rw [placePort_cons]
    cases i with
    | zero =>
      obtain rfl := some.inj h
      rw [if_neg hp]
      rfl
    | succ i =>
      split_ifs
      · exact h
      · exact ih h

theorem find?_placePort (ours : Port) (ps : List Port) :
    (placePort ours ps).find? (fun p => p.description = ours.description) = some ours := by
  induction ps with
  | nil => simp [placePort]
  | cons q ps ih =>
    rw [placePort_cons]
    split_ifs with hq
    · simp
    · rw [List.find?_cons_of_neg (by simpa using hq), ih]

theorem clashing_eq_none {ours : Port} : clashing ours ps = none ↔
    ∀ p ∈ ps, p.listenPort = ours.listenPort → p.description = ours.description := by
  unfold clashing
  simp

theorem clashing_placePort {ours : Port} (h : clashing ours ps = none) :
    clashing ours (placePort ours ps) = none := by
  rw [clashing_eq_none] at h ⊢
  induction ps with
  | nil => simp [placePort]
  | cons q ps ih =>
    rw [placePort_cons]
    obtain ⟨hq, hps⟩ := forall_mem_cons.mp h
    split_ifs
    · exact forall_mem_cons.mpr ⟨fun _ => rfl, hps⟩
    · exact forall_mem_cons.mpr ⟨hq, ih hps⟩

/-- Where the cluster has its port, and no other is at its number. -/
structure InPlace (f : ForwardSpec) (g : Forward) : Prop where
  free : clashing f.ours g.ports = none
  there : (g.ports.find? fun p => p.description = f.ours.description).any f.ours.same = true

theorem inPlace_ours (hports : clashing f.ours ps = none) (d : String) (c : OrdMap String String) :
    InPlace f ⟨d, c, placePort f.ours ps⟩ := by
  refine ⟨clashing_placePort hports, ?_⟩
  show ((placePort f.ours ps).find? _).any _ = true
  rw [find?_placePort]
  simp [Port.same]

def placed (f : ForwardSpec) (x : Option Forward) : Forward :=
  x.elim ⟨forwardDescription, [], [f.ours]⟩ fun e =>
    ⟨e.description, e.config, placePort f.ours e.ports⟩

theorem inPlace_placed (h : clashing f.ours (portsThere x) = none) : InPlace f (placed f x) := by
  cases x with
  | none =>
    have hnil : clashing f.ours [] = none := rfl
    exact inPlace_ours hnil forwardDescription []
  | some e => exact inPlace_ours h e.description e.config

theorem ensured_placed (h : (portsOf f.id (portsThere x)).length ≤ 1) :
    Ensured f x (placed f x) := by
  cases x with
  | none =>
    refine ⟨?_, ?_, ⟨f.ours, ?_, rfl, rfl, rfl, rfl⟩, ?_, ?_, fun _ => rfl⟩
    · intro i p hp
      cases hp
    · simp [placed, otherPorts, portsThere, ForwardSpec.ours]
    · simp [placed, portsOf, ForwardSpec.ours]
    · intro e he
      cases he
    · intro e he
      cases he
  | some e =>
    refine ⟨fun i p hp hother => getElem?_placePort hp hother, otherPorts_placePort,
      ⟨f.ours, portsOf_placePort h, rfl, rfl, rfl, rfl⟩, ?_, ?_, ?_⟩
    · intro e' he
      rw [← some.inj he]
      rfl
    · intro e' he
      rw [← some.inj he]
      rfl
    · intro he
      cases he

theorem ensured_of_inPlace {e : Forward} (hsingle : (portsOf f.id e.ports).length ≤ 1)
    (h : InPlace f e) :
    Ensured f (some e) e := by
  obtain ⟨p, hp, hsame⟩ := (Option.any_eq_true _ _).mp h.there
  simp only [Port.same, Bool.and_eq_true, decide_eq_true_eq] at hsame
  obtain ⟨⟨⟨⟨-, hprotocol⟩, hlisten⟩, htarget⟩, haddress⟩ := hsame
  refine ⟨fun i p hp _ => hp, rfl,
    ⟨p, portsOf_eq_singleton hsingle hp, hprotocol, hlisten, haddress, htarget⟩,
    ?_, ?_, ?_⟩
  · intro e' he
    rw [some.inj he]
  · intro e' he
    rw [some.inj he]
  · intro he
    cases he

theorem surely_ensureForward {Q : Except ForwardError ForwardChange → Address →
    List (Entry ForwardCall) → Prop}
    (hread : Q (.error .failed) w [(.get, false)])
    (hrefused : ∀ clash there, clashing f.ours (portsThere w.forward) = some clash →
      Q (.error (portInUse f clash)) (w.read f.id) [(.get, there)])
    (hthere : ∀ e there, w.forward = some e → InPlace f e →
      Q (.ok .unchanged) (w.read f.id) [(.get, there)])
    (hwrite : clashing f.ours (portsThere w.forward) = none →
      (∀ e, w.forward = some e → ¬ InPlace f e) →
      (∀ v log, Q (.error .failed) v log) ∧
        ∀ r v log, v.forward = some (placed f w.forward) → Q (.ok r) v log) :
    surely f.id Q (ensureForward f) w [] := by
  refine surely_getForward hread fun there => ?_
  cases hf : w.forward with
  | none =>
    rw [hf] at hwrite
    obtain ⟨hfailed, hwrote⟩ := hwrite rfl (fun e he => by cases he)
    refine surely_change (c := .post _) hfailed () (fun o => ?_) fun log => hwrote _ _ _ rfl
    have hnone : (w.read f.id).forward = none := hf
    simp only [Address.answer, hnone]
    exact change_cases _ o
  | some e =>
    rw [hf] at hrefused hwrite
    show surely f.id Q (updateForward f e) (w.read f.id) _
    unfold updateForward
    cases hclash : clashing f.ours e.ports with
    | some clash => exact hrefused clash there hclash
    | none =>
      split_ifs with hsame
      · exact hthere e there hf ⟨hclash, hsame⟩
      · obtain ⟨hfailed, hwrote⟩ := hwrite hclash fun e' he hin => by
          rw [← some.inj he] at hin
          exact hsame hin.there
        refine surely_change (c := .put _) hfailed () (fun o => ?_) fun log => hwrote _ _ _ rfl
        have hsome : (w.read f.id).forward = some e := hf
        simp only [Address.answer, hsome]
        exact change_cases _ o

theorem surely_removeForward {g : Forward}
    {Q : Except ForwardError Unit → Address → List (Entry ForwardCall) → Prop}
    (hg : w.forward = some g)
    (hown : portsOf f.id g.ports ≠ []) (hfailed : ∀ v log, Q (.error .failed) v log)
    (hgone : ∀ v log, v.forward = withoutOwn f (some g) → Q (.ok ()) v log) :
    surely f.id Q (removeForward f) w [] := by
  refine surely_getForward (hfailed _ _) fun there => ?_
  rw [hg]
  show surely f.id Q (clearForward f g) (w.read f.id) _
  have hsome : (w.read f.id).forward = some g := hg
  have hless : ¬ (otherPorts f.id g.ports).length = g.ports.length := by
    intro hlength
    apply hown
    apply portsOf_of_otherPorts_eq
    unfold otherPorts at hlength ⊢
    exact filter_eq_self.mpr (length_filter_eq_length_iff.mp hlength)
  unfold clearForward
  rw [if_neg hless]
  split_ifs with hempty
  · have hnone : withoutOwn f (some g) = none := if_pos hempty
    refine (wp_bind (Handler.call ForwardCall.delete) pure () _).mp
      (surely_change (c := .delete) (g := none) hfailed () (fun o => ?_) fun log =>
        hgone _ _ hnone.symm)
    simp only [Address.answer, hsome]
    exact change_cases _ o
  · have hrest : withoutOwn f (some g) = some ⟨g.description, g.config, otherPorts f.id g.ports⟩ :=
      if_neg hempty
    refine (wp_bind (Handler.call (ForwardCall.put _)) pure () _).mp
      (surely_change (c := .put _) hfailed () (fun o => ?_) fun log => hgone _ _ hrest.symm)
    simp only [Address.answer, hsome]
    exact change_cases _ o

theorem withoutOwn_ensured {g : Forward} (h : Ensured f x g) :
    withoutOwn f (some g) = withoutOwn f x := by
  cases x with
  | none => exact if_pos ⟨by simpa [otherPorts, portsThere] using h.others, h.created rfl⟩
  | some e =>
    have hothers : otherPorts f.id g.ports = otherPorts f.id e.ports := h.others
    simp only [withoutOwn, Option.bind_some, hothers, h.description e rfl, h.config e rfl]

theorem ensured_of_ends {r : ForwardChange}
    (hsingle : (portsOf f.id (portsThere x)).length ≤ 1) (hx : w.forward = x)
    (h : Ends (ensureForward f) f.id w (.ok r) w' log) :
    ∃ g, w'.forward = some g ∧ Ensured f x g ∧ InPlace f g := by
  subst hx
  refine h.meets (Q := fun r v _ => ∀ a, r = .ok a →
    ∃ g, v.forward = some g ∧ Ensured f w.forward g ∧ InPlace f g)
      (surely_ensureForward ?_ ?_ ?_ ?_) r rfl
  · intro a ha
    cases ha
  · intro clash there _ a ha
    cases ha
  · intro e there he hin a _
    refine ⟨e, he, ?_, hin⟩
    rw [he] at hsingle ⊢
    exact ensured_of_inPlace hsingle hin
  · intro hclash _
    constructor
    · intro v log a ha
      cases ha
    · intro r v log hv a _
      exact ⟨_, hv, ensured_placed hsingle, inPlace_placed hclash⟩

/-- Exactly where another port that covers the number has its very text, or none does, a cluster
touches only its own port. -/
theorem ownPortOnly_iff {x : Option Forward} (hsingle : (portsOf f.id (portsThere x)).length ≤ 1) :
    OwnPortOnly f x ↔ (Covered f x → SameText f x) := by
  constructor
  · intro h hcovered
    by_contra hno
    have hclash : clashing f.ours (portsThere x) = none := by
      rw [clashing_eq_none]
      intro p hp hlisten
      by_contra hother
      exact hno ⟨p, hp, hother, hlisten⟩
    cases x with
    | none =>
      obtain ⟨q, hq, -⟩ := hcovered
      cases hq
    | some e =>
      replace hclash : clashing f.ours e.ports = none := hclash
      -- Both requests go well.
      obtain ⟨w₀, hw₀⟩ : ∃ w₀ : Address, w₀.forward = some e := ⟨⟨some e, 0, fun _ => 0⟩, rfl⟩
      have hget : ∀ os, (ensureForward f ()).result (alone f.id).logged (w₀, []) (went :: os) =
          (updateForward f e ()).result (alone f.id).logged (w₀.read f.id, [(.get, true)]) os := by
        intro os
        obtain ⟨forward, writes, readAt⟩ := w₀
        obtain rfl : forward = some e := hw₀
        rfl
      have hrun : ∃ r w' log, Ends (ensureForward f) f.id w₀ (.ok r) w' log := by
        by_cases hsame :
          (e.ports.find? fun p => p.description = f.ours.description).any f.ours.same = true
        · have hupdate : updateForward f e = pure .unchanged := by
            unfold updateForward
            rw [hclash]
            exact if_pos hsame
          refine ⟨.unchanged, w₀.read f.id, [(.get, true)], [went], ?_⟩
          rw [hget, hupdate]
          rfl
        · have hupdate : updateForward f e =
              Forwarding.put ⟨e.description, e.config, placePort f.ours e.ports⟩ >>= fun _ =>
                pure .updated := by
            unfold updateForward
            rw [hclash]
            exact if_neg hsame
          refine ⟨.updated,
            (w₀.read f.id).write (some ⟨e.description, e.config, placePort f.ours e.ports⟩),
            [(.get, true), (.put ⟨e.description, e.config, placePort f.ours e.ports⟩, true)],
            [went, went], ?_⟩
          rw [hget, hupdate]
          obtain ⟨forward, writes, readAt⟩ := w₀
          obtain rfl : forward = some e := hw₀
          rfl
      obtain ⟨r, w', log, hends⟩ := hrun
      obtain ⟨err, herr⟩ := (h.refuses hcovered _ _ _ _ hw₀ hends).1
      cases herr
  · intro hcond
    refine ⟨?_, ?_, ?_, ?_⟩
    · intro w r w' log hx h
      obtain ⟨g, hg, hensured, -⟩ := ensured_of_ends hsingle hx h
      exact ⟨g, hg, hensured⟩
    · intro w r w' log hx h r₂ w₂ log₂ h₂
      obtain ⟨g, hg, -, hin⟩ := ensured_of_ends hsingle hx h
      refine h₂.meets (Q := fun r v _ => (r = .ok .unchanged ∨ r = .error .failed) ∧
        v.forward = w'.forward)
        (surely_ensureForward ⟨.inr rfl, rfl⟩ ?_ ?_ ?_)
      · intro clash there hclash
        rw [hg] at hclash
        have hfree := hin.free
        replace hclash : clashing f.ours g.ports = some clash := hclash
        rw [hfree] at hclash
        cases hclash
      · intro e there _ _
        exact ⟨.inl rfl, rfl⟩
      · intro _ hnot
        exact absurd hin (hnot g hg)
    · intro w r w' log hx h r₂ w₂ log₂ h₂
      obtain ⟨g, hg, hensured, -⟩ := ensured_of_ends hsingle hx h
      obtain ⟨p, hp, -⟩ := hensured.own
      refine h₂.meets (Q := fun r v _ => r = .ok () ∧ v.forward = withoutOwn f x ∨
        r = .error .failed)
        (surely_removeForward hg ?_ ?_ ?_)
      · rw [hp]
        exact cons_ne_nil p []
      · intro v log
        exact .inr rfl
      · intro v log hv
        exact .inl ⟨rfl, hv.trans (withoutOwn_ensured hensured)⟩
    · intro hcovered w r w' log hx h
      subst hx
      obtain ⟨p, hp, hother, hlisten⟩ := hcond hcovered
      have hclash : clashing f.ours (portsThere w.forward) ≠ none := fun hnone =>
        hother (clashing_eq_none.mp hnone p hp hlisten)
      refine h.meets (Q := fun r v log => (∃ e, r = .error e) ∧ (∀ c ∈ log, c.1.changes = false) ∧
        v.forward = w.forward)
          (surely_ensureForward ⟨⟨_, rfl⟩, by simp [ForwardCall.changes], rfl⟩ ?_ ?_ ?_)
      · intro clash there _
        exact ⟨⟨_, rfl⟩, by simp [ForwardCall.changes], rfl⟩
      · intro e there he hin
        rw [he] at hclash
        exact absurd hin.free hclash
      · intro hnone _
        exact absurd hnone hclash

/-- The operator's port covers another number. -/
theorem ownPortOnly_iff_operator : OwnPortOnly (specOf "1" 30001) operatorsForward.forward := by
  refine (ownPortOnly_iff (by decide)).mpr ?_
  rintro ⟨p, hp, -, htcp, -⟩
  obtain rfl : p = operatorsPort := mem_singleton.mp hp
  exact absurd htcp (by decide)

/-- A range of the operator's that covers the cluster's number. -/
def rangeForward : Forward :=
    ⟨"", [], [⟨"web", "tcp", "16000-17000", "16000-17000", "10.0.0.9", []⟩]⟩

/-- The list of ports is sent with ours beside the range that covers it. -/
theorem ensureForward_overlaps :
    ¬ ∀ (f : ForwardSpec) (x : Option Forward), (portsOf f.id (portsThere x)).length ≤ 1 →
      OwnPortOnly f x := by
  intro h
  have hcovered : Covered (specOf "1" 16443) (some rangeForward) :=
    ⟨_, mem_cons_self, by decide, rfl, by decide⟩
  have hown := h (specOf "1" 16443) (some rangeForward) (by decide)
  have hrun : Ends (ensureForward (specOf "1" 16443)) "1" ⟨some rangeForward, 0, fun _ => 0⟩
    (.ok .updated)
      ((Address.read ⟨some rangeForward, 0, fun _ => 0⟩ "1").write
        (some ⟨"", [], rangeForward.ports ++ [(specOf "1" 16443).ours]⟩))
      [(.get, true), (.put ⟨"", [], rangeForward.ports ++ [(specOf "1" 16443).ours]⟩, true)] :=
    ⟨[went, went], rfl⟩
  obtain ⟨err, herr⟩ := (hown.refuses hcovered _ _ _ _ rfl hrun).1
  cases herr

end IncusCloud.Kubernetes
