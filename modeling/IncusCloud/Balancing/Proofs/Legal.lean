import IncusCloud.Balancing.Proofs.Balance

/-!
# A plan only makes legal moves

What every step of a plan keeps: no guest has moved twice, the moves are no more than the policy
allows, each of them was allowed, and a guest that has not moved is where it was.
-/

open List

namespace IncusCloud.Balancing

open Lib

variable {N : Type}

/-- The guest may make the move. -/
structure Legal (i : PlanInput N) (g : Guest N) (m : Move) : Prop where
  project : m.project = g.project
  name : m.name = g.name
  movable : g.movable = true
  balance : g.hints.balance ≠ some false
  source : m.source = g.member
  leaves : ∀ x, i.member? m.source = some x → x.maintenance = false
  target : ∃ x ∈ i.members, x.name = m.target ∧ x.maintenance = false
  moves : m.target ≠ m.source
  pinned : ∀ pin, g.hints.pin = some pin → pin ≠ [] → m.target ∈ pin

def moveKey (m : Move) : String := m.project ++ "/" ++ m.name

/-- What each phase keeps of the moves so far. -/
structure Tidy (i : PlanInput N) (w : Work N) : Prop where
  moved : ∀ k, k ∈ w.moved ↔ k ∈ w.moves.map moveKey
  once : (w.moves.map moveKey).Nodup
  room : (w.moves.length : ℤ) ≤ i.maxMoves
  legal : ∀ m ∈ w.moves, ∃ g ∈ i.guests, Legal i g m
  stays : ∀ g ∈ i.guests, key g ∉ w.moved → w.state.on g = g.member

theorem mem_activeNames {c : Fleet N} {name : String} :
    name ∈ c.activeNames ↔ ∃ x ∈ c.members, x.name = name ∧ x.maintenance = false := by
  unfold Fleet.activeNames Fleet.active
  simp only [List.mem_map, mem_filter, Bool.not_eq_true']
  constructor
  · rintro ⟨x, ⟨hx, hm⟩, hname⟩
    exact ⟨x, hx, hname, hm⟩
  · rintro ⟨x, hx, hname, hm⟩
    exact ⟨x, ⟨hx, hm⟩, hname⟩

variable {target : String}

theorem legal_of_allowed {i : PlanInput N} {w : Work N} (h : Tidy i w) {g : Guest N}
    (hg : g ∈ i.guests) (hallowed : target ∈ w.allowed i g)
    (reason : MoveReason) : Legal i g ⟨g.project, g.name, w.state.on g, target, reason⟩ := by
  obtain ⟨⟨hmovable, hbalance, hmoved⟩, hmaintenance, hactive, hne, hpin⟩ :=
    Work.mem_allowed.mp hallowed
  refine ⟨rfl, rfl, hmovable, hbalance, h.stays g hg hmoved, fun x hx => ?_,
    mem_activeNames.mp hactive, hne, fun pin hgpin hpinned => ?_⟩
  · rw [show i.member? (w.state.on g) = some x from hx] at hmaintenance
    exact hmaintenance
  · rw [hgpin] at hpin
    exact hpin.resolve_left hpinned

theorem Tidy.quiet {i : PlanInput N} {w w' : Work N} (h : Tidy i w) (hq : Quiet w w') :
    Tidy i w' := by
  obtain ⟨hon, hmoves, hmoved⟩ := hq
  refine ⟨?_, ?_, ?_, ?_, fun g hg hk => ?_⟩
  · rw [hmoved, hmoves]
    exact h.moved
  · rw [hmoves]
    exact h.once
  · rw [hmoves]
    exact h.room
  · rw [hmoves]
    exact h.legal
  · rw [hon]
    exact h.stays g hg (hmoved ▸ hk)

variable [JsRuntime N]

theorem on_new {c : Fleet N} (hkeys : (c.guests.map key).Nodup) {g : Guest N} (hg : g ∈ c.guests) :
    (State.new c).on g = g.member := by
  have hnodup : ((c.guests.map fun g => (key g, g.member)).map (·.1)).Nodup := by
    rw [map_map]
    exact hkeys
  unfold State.on State.new
  dsimp only
  rw [OrdMap.ofList_eq_self hnodup, OrdMap.get_of_mem hnodup (List.mem_map.mpr ⟨g, hg, rfl⟩)]
  rfl

theorem tidy_start {i : PlanInput N} (hkeys : (i.guests.map key).Nodup) (hmax : 0 ≤ i.maxMoves) :
    Tidy i (.start i) :=
  ⟨fun _ => .rfl, nodup_nil, hmax, fun _ hm => (nomatch hm), fun _ hg _ => on_new hkeys hg⟩

theorem Tidy.shift {i : PlanInput N} {w : Work N} (h : Tidy i w) {unit : List (Guest N)} (hadm : Admissible i w unit target)
    (room : ((w.moves.length + unit.length : ℕ) : ℤ) ≤ i.maxMoves) (reason : MoveReason) :
    Tidy i (recordAll i w unit target reason) := by
  obtain ⟨hmoves, hmoved, hon⟩ := recordAll_spec hadm.keys room target reason
  have hkeys : (recordAll i w unit target reason).moves.map moveKey =
      w.moves.map moveKey ++ unit.map key := by
    rw [hmoves, map_append, map_map]
    rfl
  refine ⟨fun k => ?_, ?_, ?_, fun m hm => ?_, fun g hg hk => ?_⟩
  · rw [hmoved, hkeys, mem_append, h.moved]
    exact or_comm
  · rw [hkeys, nodup_append]
    refine ⟨h.once, hadm.keys, fun k hk k' hk' hkk' => ?_⟩
    -- No guest of the unit has moved before.
    obtain ⟨g, hg, rfl⟩ := List.mem_map.mp hk'
    have hunmoved := (Work.mem_allowed.mp (hadm.allowed g hg)).1.2.2
    exact hunmoved ((h.moved _).mpr (hkk' ▸ hk))
  · rw [hmoves, length_append, length_map]
    exact room
  · rw [hmoves] at hm
    rcases mem_append.mp hm with hm | hm
    · exact h.legal m hm
    · obtain ⟨g, hg, rfl⟩ := List.mem_map.mp hm
      exact ⟨g, hadm.guests g hg, legal_of_allowed h (hadm.guests g hg) (hadm.allowed g hg) reason⟩
  · rw [hmoved, not_or] at hk
    rw [hon, if_neg hk.1]
    exact h.stays g hg hk.2

theorem Tidy.steps {i : PlanInput N} {w w' : Work N} (h : Tidy i w) (hsteps : Steps i w w') :
    Tidy i w' := by
  induction hsteps with
  | refl => exact h
  | tail _ hstep ih =>
    cases hstep with
    | quiet hq => exact ih.quiet hq
    | shift reason hadm room => exact ih.shift hadm room reason

/-- **A plan only makes legal moves**: of no guest twice, not more than `maxMoves`, and each of a
guest that may move, off the member it is on, to an active member it may be on. -/
theorem plan_legal (i : PlanInput N) (hkeys : (i.guests.map key).Nodup) (hmax : 0 ≤ i.maxMoves) :
    ∃ p, plan i = some p ∧ (p.moves.map fun m => (m.project, m.name)).Nodup ∧
      (p.moves.length : ℤ) ≤ i.maxMoves ∧ ∀ m ∈ p.moves, ∃ g ∈ i.guests, Legal i g m := by
  obtain ⟨p, w, hp, hsteps, hmoves⟩ := plan_steps hkeys
  have htidy := (tidy_start hkeys hmax).steps hsteps
  refine ⟨p, hp, ?_⟩
  rw [hmoves]
  refine ⟨?_, htidy.room, htidy.legal⟩
  -- Moves of one guest have one key.
  have honce : ((w.moves.map fun m => (m.project, m.name)).map
      fun x => x.1 ++ "/" ++ x.2).Nodup := by
    rw [map_map]
    exact htidy.once
  exact honce.of_map _

/-! ### A plan of every kind of move -/

def compareNames (a b : String) : ℤ := if a < b then -1 else if a = b then 0 else 1

def guestOf (name member : String) (memory : ℚ) (hints : Hints) : Guest ℚ :=
  ⟨"p", name, member, true, ⟨memory, 1, 1⟩, ⟨memory, 1, 1⟩, hints⟩

def memberOf (name : String) (used : ℚ) (maintenance : Bool) : Member ℚ :=
  ⟨name, maintenance, ⟨16, 8, 100⟩, ⟨used, 1, 10⟩⟩

/-- Three members, one more in maintenance, and a guest for each phase. -/
def fleetABC : PlanInput ℚ where
  members := [memberOf "a" 12 false, memberOf "b" 3 false, memberOf "c" 4 false, memberOf "m" 1 true]
  guests :=
    [guestOf "big" "a" 4 {}, guestOf "db1" "a" 1 { antiAffinity := some "db" },
      guestOf "db2" "a" 1 { antiAffinity := some "db" }, guestOf "fixed" "a" 4 { balance := some false },
      guestOf "pinned" "a" 1 { pin := some ["c"] }, guestOf "web1" "b" 1 { affinity := some "web" },
      guestOf "web2" "c" 1 { affinity := some "web" }, guestOf "old" "m" 1 {}]
  mode := .used
  method := .memory
  balanciness := 10
  maxMoves := 10

/-- Every phase makes a move, each legal. -/
theorem plan_legal_fleetABC :
    (@plan ℚ (exact compareNames) fleetABC).map (·.moves) =
        some [⟨"p", "pinned", "a", "c", .pin⟩, ⟨"p", "db2", "a", "b", .antiAffinity⟩,
          ⟨"p", "web2", "c", "b", .affinity⟩, ⟨"p", "big", "a", "c", .balance⟩] ∧
      ∃ p, @plan ℚ (exact compareNames) fleetABC = some p ∧
        (p.moves.map fun m => (m.project, m.name)).Nodup ∧
        (p.moves.length : ℤ) ≤ fleetABC.maxMoves ∧
        ∀ m ∈ p.moves, ∃ g ∈ fleetABC.guests, Legal fleetABC g m :=
  ⟨by decide +kernel, @plan_legal ℚ (exact compareNames) fleetABC (by decide) (by decide)⟩

/-!
### Balancing keeps anti-affinity

Two guests of one anti-affinity group that are together after a plan were together before it. A
guest that moves meets none of its group at the target, except those of its unit, which come along
from where they were together.
-/

variable {N : Type}

def SameGroup (g o : Guest N) : Prop :=
  g.project = o.project ∧
    ∃ group, given g.hints.antiAffinity = some group ∧ given o.hints.antiAffinity = some group

def Move.isOf (m : Move) (g : Guest N) : Prop := m.project = g.project ∧ m.name = g.name

instance (m : Move) (g : Guest N) : Decidable (m.isOf g) := inferInstanceAs (Decidable (_ ∧ _))

def placeAfter (moves : List Move) (g : Guest N) : String :=
  moves.foldl (fun on m => if m.isOf g then m.target else on) g.member

theorem SameGroup.symm {g o : Guest N} (h : SameGroup g o) : SameGroup o g := by
  obtain ⟨hproject, group, hg, ho⟩ := h
  exact ⟨hproject.symm, group, ho, hg⟩

theorem eq_of_key {i : PlanInput N} (hkeys : (i.guests.map key).Nodup) {g o : Guest N}
    (hg : g ∈ i.guests) (ho : o ∈ i.guests) (h : key g = key o) : g = o :=
  inj_on_of_nodup_map hkeys hg ho h

theorem placeAfter_unit {i : PlanInput N} (hkeys : (i.guests.map key).Nodup) {unit : List (Guest N)}
    (hunit : ∀ g ∈ unit, g ∈ i.guests) (moves : List Move) (source : Guest N → String)
    (target : String) (reason : MoveReason) {o : Guest N} (ho : o ∈ i.guests) :
    placeAfter (moves ++ unit.map fun g => ⟨g.project, g.name, source g, target, reason⟩) o =
      if key o ∈ unit.map key then target else placeAfter moves o := by
  unfold placeAfter
  rw [foldl_append]
  generalize moves.foldl (fun on m => if m.isOf o then m.target else on) o.member = start
  induction unit generalizing start with
  | nil => simp
  | cons g unit ih =>
    have hg := hunit g mem_cons_self
    have hof : Move.isOf ⟨g.project, g.name, source g, target, reason⟩ o ↔ key o = key g := by
      constructor
      · rintro ⟨hproject, hname⟩
        unfold key
        rw [show o.project = g.project from hproject.symm, show o.name = g.name from hname.symm]
      · intro hk
        obtain rfl := eq_of_key hkeys ho hg hk
        exact ⟨rfl, rfl⟩
    rw [map_cons, foldl_cons, ih fun x hx => hunit x (mem_cons_of_mem _ hx),
      map_cons, ← ite_mem_cons]
    simp only [hof]

/-! ### The invariant -/

structure Apart (i : PlanInput N) (w : Work N) : Prop where
  placed : ∀ g ∈ i.guests, w.state.on g = placeAfter w.moves g
  pairs : ∀ g ∈ i.guests, ∀ o ∈ i.guests, key g ≠ key o → SameGroup g o →
    w.state.on g = w.state.on o → g.member = o.member

theorem Apart.quiet {i : PlanInput N} {w w' : Work N} (h : Apart i w) (hq : Quiet w w') :
    Apart i w' := by
  constructor
  · rw [hq.on, hq.moves]
    exact h.placed
  · rw [hq.on]
    exact h.pairs

theorem Admissible.not_meets {i : PlanInput N} {w : Work N} {unit : List (Guest N)}
    (hadm : Admissible i w unit target) {g o : Guest N} (hg : key g ∈ unit.map key)
    (hgi : g ∈ i.guests) (hkeys : (i.guests.map key).Nodup) (ho : o ∈ i.guests)
    (hout : key o ∉ unit.map key) (hgroup : SameGroup g o) : w.state.on o ≠ target := by
  obtain ⟨x, hx, hxg⟩ := List.mem_map.mp hg
  obtain rfl := eq_of_key hkeys (hadm.guests x hx) hgi hxg
  obtain ⟨hproject, group, hgx, hgo⟩ := hgroup
  have hne : key o ≠ key x := fun h => hout (h ▸ hg)
  have hanti : o.hints.antiAffinity = some group := (Option.filter_eq_some_iff.mp hgo).1
  exact State.antiConflict_eq_false_iff.mp (hadm.apart x hx) group hgx o ho hne hout
    hproject.symm hanti

variable [JsRuntime N]

theorem apart_start {i : PlanInput N} (hkeys : (i.guests.map key).Nodup) : Apart i (.start i) := by
  have hon : ∀ g ∈ i.guests, (Work.start i).state.on g = g.member := fun g hg => on_new hkeys hg
  refine ⟨hon, fun g hg o ho _ _ h => ?_⟩
  rwa [hon g hg, hon o ho] at h

theorem Apart.shift {i : PlanInput N} (hkeys : (i.guests.map key).Nodup) {w : Work N}
    (h : Apart i w) {unit : List (Guest N)} (hadm : Admissible i w unit target)
    (room : ((w.moves.length + unit.length : ℕ) : ℤ) ≤ i.maxMoves) (reason : MoveReason) :
    Apart i (recordAll i w unit target reason) := by
  obtain ⟨hmoves, -, hon⟩ := recordAll_spec hadm.keys room target reason
  obtain ⟨source, hsource⟩ := hadm.together
  constructor
  · intro g hg
    rw [hon, hmoves, placeAfter_unit hkeys hadm.guests _ _ _ _ hg, h.placed g hg]
  · intro g hg o ho hne hgroup heq
    rw [hon, hon] at heq
    by_cases hgin : key g ∈ unit.map key
    · by_cases hoin : key o ∈ unit.map key
      · -- Both come from `source`.
        have hfrom : ∀ x, key x ∈ unit.map key → w.state.on x = source := by
          intro x hx
          obtain ⟨y, hy, hk⟩ := List.mem_map.mp hx
          rw [← hsource y hy]
          exact (w.state.on_congr hk).symm
        exact h.pairs g hg o ho hne hgroup ((hfrom g hgin).trans (hfrom o hoin).symm)
      · rw [if_pos hgin, if_neg hoin] at heq
        exact absurd heq.symm (hadm.not_meets hgin hg hkeys ho hoin hgroup)
    · by_cases hoin : key o ∈ unit.map key
      · rw [if_neg hgin, if_pos hoin] at heq
        exact absurd heq (hadm.not_meets hoin ho hkeys hg hgin hgroup.symm)
      · rw [if_neg hgin, if_neg hoin] at heq
        exact h.pairs g hg o ho hne hgroup heq

theorem Apart.steps {i : PlanInput N} (hkeys : (i.guests.map key).Nodup) {w w' : Work N}
    (h : Apart i w) (hsteps : Steps i w w') : Apart i w' := by
  induction hsteps with
  | refl => exact h
  | tail _ hstep ih =>
    cases hstep with
    | quiet hq => exact ih.quiet hq
    | shift reason hadm room => exact ih.shift hkeys hadm room reason

/-- **Balancing never creates an anti-affinity conflict**: two guests of a group that a plan leaves
on one member were on one member before. -/
theorem plan_keeps_antiAffinity (i : PlanInput N) (hkeys : (i.guests.map key).Nodup) :
    ∃ p, plan i = some p ∧ ∀ g ∈ i.guests, ∀ o ∈ i.guests, g ≠ o → SameGroup g o →
      placeAfter p.moves g = placeAfter p.moves o → g.member = o.member := by
  obtain ⟨p, w, hp, hsteps, hmoves⟩ := plan_steps hkeys
  have hapart := (apart_start hkeys).steps hkeys hsteps
  refine ⟨p, hp, fun g hg o ho hne hgroup heq => ?_⟩
  have hkey : key g ≠ key o := fun h => hne (eq_of_key hkeys hg ho h)
  refine hapart.pairs g hg o ho hkey hgroup ?_
  rw [hapart.placed g hg, hapart.placed o ho, ← hmoves]
  exact heq

/-- The databases of `fleetABC` are apart after its plan. -/
theorem plan_keeps_antiAffinity_fleetABC :
    ∃ p, @plan ℚ (exact compareNames) fleetABC = some p ∧
      ∀ g ∈ fleetABC.guests, ∀ o ∈ fleetABC.guests, g ≠ o → SameGroup g o →
        placeAfter p.moves g = placeAfter p.moves o → g.member = o.member :=
  @plan_keeps_antiAffinity ℚ (exact compareNames) fleetABC (by decide)

end IncusCloud.Balancing
