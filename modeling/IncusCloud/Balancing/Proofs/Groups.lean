import IncusCloud.Balancing.Proofs.Legal
import IncusCloud.Lib.Text
import Mathlib.Data.List.Dedup

/-!
# Affinity groups are not spread

A guest of a group is gathered where one of its group is, and the loop moves a group whole. So a
group is on no more members after a plan than before: as far as the engine tells groups apart, which
it does by the text of the project and the hint.
-/

namespace IncusCloud.Balancing

open Lib List Option

variable {N : Type} {affinity project : String} {w : Work N}

/-! ### The members of a group -/

def groupOf (i : PlanInput N) (project affinity : String) : List (Guest N) :=
  i.guests.filter fun g => g.project = project ∧ g.hints.affinity = some affinity

def hosts (place : Guest N → String) (gs : List (Guest N)) : ℕ := (gs.map place).dedup.length

theorem mem_groupOf {i : PlanInput N} {g : Guest N} :
    g ∈ groupOf i project affinity ↔ g ∈ i.guests ∧ g.project = project ∧ g.hints.affinity = some affinity := by
  unfold groupOf
  rw [mem_filter]
  simp

variable {gs : List (Guest N)}

theorem hosts_le {place place' : Guest N → String}
    (h : ∀ g ∈ gs, ∃ o ∈ gs, place' g = place o) : hosts place' gs ≤ hosts place gs := by
  have hsubset : (gs.map place').dedup ⊆ (gs.map place).dedup := by
    intro m hm
    obtain ⟨g, hg, rfl⟩ := List.mem_map.mp (mem_dedup.mp hm)
    obtain ⟨o, ho, hgo⟩ := h g hg
    rw [hgo]
    exact mem_dedup.mpr (mem_map_of_mem ho)
  exact (subperm_of_subset (nodup_dedup _) hsubset).length_le

theorem hosts_le_one {place : Guest N → String} {member : String}
    (h : ∀ g ∈ gs, place g = member) : hosts place gs ≤ 1 := by
  have hsubset : (gs.map place).dedup ⊆ [member] := by
    intro m hm
    obtain ⟨g, hg, rfl⟩ := List.mem_map.mp (mem_dedup.mp hm)
    rw [h g hg]
    exact mem_singleton_self member
  exact (subperm_of_subset (nodup_dedup _) hsubset).length_le

theorem together_of_hosts_le {place : Guest N → String} (h : hosts place gs ≤ 1) :
    ∀ g ∈ gs, ∀ o ∈ gs, place g = place o := by
  intro g hg o ho
  have hmem : ∀ x ∈ gs, place x ∈ (gs.map place).dedup := fun x hx =>
    mem_dedup.mpr (mem_map_of_mem hx)
  have hone : ∀ l : List String, l.length ≤ 1 → place g ∈ l → place o ∈ l → place g = place o := by
    intro l hl hgl hol
    match l with
    | [] => cases hgl
    | [x] => rw [mem_singleton.mp hgl, mem_singleton.mp hol]
    | _ :: _ :: _ => simp at hl
  exact hone _ h (hmem g hg) (hmem o ho)

/-! ### Groups that the engine tells apart -/

def Alone (i : PlanInput N) (project affinity : String) : Prop :=
  ∀ o ∈ i.guests, (given o.hints.affinity).isSome = true → groupName o = project ++ "/" ++ affinity →
    o.project = project ∧ o.hints.affinity = some affinity

theorem alone_of_noSlash {i : PlanInput N} (hnames : ∀ g ∈ i.guests, '/' ∉ g.project.toList)
    (hproject : '/' ∉ project.toList) (affinity : String) : Alone i project affinity := by
  intro o ho hgiven hname
  obtain ⟨a, ha⟩ := isSome_iff_exists.mp hgiven
  have haffinity : o.hints.affinity = some a := (filter_eq_some_iff.mp ha).1
  have htext : o.project.toList ++ '/' :: a.toList = project.toList ++ '/' :: affinity.toList := by
    unfold groupName at hname
    rw [haffinity, getD_some] at hname
    have hlist := congrArg String.toList hname
    simpa [String.toList_append] using hlist
  obtain ⟨hp, ha'⟩ := append_sep_inj (hnames o ho) hproject htext
  rw [haffinity, String.toList_inj.mp ha']
  exact ⟨String.toList_inj.mp hp, rfl⟩

/-! ### The invariant -/

variable [JsRuntime N] {i : PlanInput N}

theorem hosts_single (hkeys : (i.guests.map key).Nodup) {g : Guest N}
    (hg : g ∈ i.guests) {target : String}
    (hthere : g ∈ groupOf i project affinity → ∃ o ∈ groupOf i project affinity, w.state.on o = target)
    (hroom : ((w.moves.length + [g].length : ℕ) : ℤ) ≤ i.maxMoves) (reason : MoveReason) :
    hosts (recordAll i w [g] target reason).state.on (groupOf i project affinity) ≤
      hosts w.state.on (groupOf i project affinity) := by
  have hnodup : ([g].map key).Nodup := nodup_singleton _
  obtain ⟨-, -, hon⟩ := recordAll_spec hnodup hroom target reason
  refine hosts_le fun x hx => ?_
  rw [hon]
  by_cases hk : key x ∈ [g].map key
  · have hsame : x = g := eq_of_key hkeys (mem_groupOf.mp hx).1 hg (mem_singleton.mp hk)
    rw [hsame] at hx
    obtain ⟨o, ho, hot⟩ := hthere hx
    rw [if_pos hk]
    exact ⟨o, ho, hot.symm⟩
  · rw [if_neg hk]
    exact ⟨x, hx, rfl⟩

theorem mem_unitOf_iff (hgiven : affinity ≠ "") {g x : Guest N}
    (hx : x ∈ groupOf i project affinity) (hxu : x ∈ unitOf i g) (o : Guest N) :
    o ∈ unitOf i g ↔ o ∈ groupOf i project affinity := by
  obtain ⟨-, hproject, haffinity⟩ := mem_groupOf.mp hx
  have hsome : (given x.hints.affinity).isSome = true := by
    unfold given
    rw [haffinity]
    simp [hgiven]
  rw [← unitOf_eq hxu]
  unfold unitOf
  rw [if_pos hsome, mem_affinityGroup, mem_groupOf, hproject, haffinity]

theorem hosts_unit (hkeys : (i.guests.map key).Nodup) (hgiven : affinity ≠ "") {g : Guest N}
    (hg : g ∈ i.guests) {target : String}
    (hroom : ((w.moves.length + (unitOf i g).length : ℕ) : ℤ) ≤ i.maxMoves) (reason : MoveReason) :
    hosts (recordAll i w (unitOf i g) target reason).state.on (groupOf i project affinity) ≤
      hosts w.state.on (groupOf i project affinity) := by
  obtain ⟨-, -, hon⟩ := recordAll_spec (keys_unitOf hkeys g) hroom target reason
  by_cases hmeets : ∃ x ∈ groupOf i project affinity, x ∈ unitOf i g
  · -- The unit is the group, and is together at the target.
    obtain ⟨x, hx, hxu⟩ := hmeets
    have hall : ∀ o ∈ groupOf i project affinity,
        (recordAll i w (unitOf i g) target reason).state.on o = target := by
      intro o ho
      rw [hon, if_pos (mem_map_of_mem ((mem_unitOf_iff hgiven hx hxu o).mpr ho))]
    have hpos : 1 ≤ hosts w.state.on (groupOf i project affinity) := by
      exact length_pos_of_mem (mem_dedup.mpr (mem_map_of_mem hx))
    exact (hosts_le_one hall).trans hpos
  · refine hosts_le fun x hx => ⟨x, hx, ?_⟩
    rw [hon, if_neg]
    intro hk
    obtain ⟨o, ho, hox⟩ := List.mem_map.mp hk
    have hsame : o = x := eq_of_key hkeys (guests_unitOf hg o ho) (mem_groupOf.mp hx).1 hox
    exact hmeets ⟨x, hx, hsame ▸ ho⟩

theorem hosts_hinted (hkeys : (i.guests.map key).Nodup)
    (hplain : ∀ g ∈ groupOf i project affinity, g.hints.pin.getD [] = [] ∧ given g.hints.antiAffinity = none)
    (halone : Alone i project affinity) {w' : Work N} (hrun : AllHinted i w w') :
    hosts w'.state.on (groupOf i project affinity) ≤ hosts w.state.on (groupOf i project affinity) := by
  induction hrun with
  | refl => exact le_refl _
  | @tail w₁ w₂ _ hstep ih =>
    cases hstep with
    | noted state moves moved =>
      rw [state]
      exact ih
    | @moved g target reason hg allowed fits room cause =>
      refine (hosts_single hkeys hg (fun hgroup => ?_) room reason).trans ih
      obtain ⟨hpin, hanti⟩ := hplain g hgroup
      obtain ⟨-, hproject, haffinity⟩ := mem_groupOf.mp hgroup
      cases cause with
      | pinned hpinned => exact absurd hpin hpinned
      | spread hspread =>
        rw [hanti] at hspread
        cases hspread
      | @gathered _ o ho hgiven hname hon =>
        have htext : groupName o = project ++ "/" ++ affinity := by
          rw [hname]
          unfold groupName
          rw [hproject, haffinity, getD_some]
        obtain ⟨hop, hoa⟩ := halone o ho hgiven htext
        exact ⟨o, mem_groupOf.mpr ⟨ho, hop, hoa⟩, hon⟩

theorem hosts_rounds (hkeys : (i.guests.map key).Nodup) (hgiven : affinity ≠ "")
    {w' : Work N} (hrounds : Rounds i w w') :
    hosts w'.state.on (groupOf i project affinity) ≤ hosts w.state.on (groupOf i project affinity) := by
  induction hrounds with
  | refl => exact le_refl _
  | tail _ hround ih =>
    obtain ⟨w₁, target, g, hg, hquiet, -, hroom, rfl⟩ := round_spec hkeys hround
    have hunit : hosts (recordAll i w₁ (unitOf i g) target .balance).state.on (groupOf i project affinity) ≤
        hosts w₁.state.on (groupOf i project affinity) := hosts_unit hkeys hgiven hg hroom .balance
    rw [hquiet.on] at hunit
    exact hunit.trans ih

/-! ### Plans -/

/-- **A plan spreads no affinity group further**: after its moves, a group that is neither pinned
nor kept apart, and whose text no other group has, is on no more members than before; so one that
was together is together. -/
theorem plan_keeps_affinity (i : PlanInput N) (hkeys : (i.guests.map key).Nodup) :
    ∃ p, plan i = some p ∧ ∀ project affinity, affinity ≠ "" → Alone i project affinity →
      (∀ g ∈ groupOf i project affinity, g.hints.pin.getD [] = [] ∧ given g.hints.antiAffinity = none) →
      hosts (placeAfter p.moves) (groupOf i project affinity) ≤
          hosts (fun g => g.member) (groupOf i project affinity) ∧
        ((∀ g ∈ groupOf i project affinity, ∀ o ∈ groupOf i project affinity, g.member = o.member) →
          ∀ g ∈ groupOf i project affinity, ∀ o ∈ groupOf i project affinity,
            placeAfter p.moves g = placeAfter p.moves o) := by
  obtain ⟨last, hrounds, -, hplan, -⟩ := plan_rounds hkeys
  refine ⟨planOf i last, hplan, fun project affinity hgiven halone hplain => ?_⟩
  have hsteps := (steps_hints i).trans (steps_rounds hkeys hrounds)
  have hplaced := ((apart_start hkeys).steps hkeys (hsteps.trans (quiet_stop hkeys last).steps)).placed
  have hafter : hosts (placeAfter (planOf i last).moves) (groupOf i project affinity) =
      hosts last.state.on (groupOf i project affinity) := by
    unfold hosts
    rw [← (quiet_stop hkeys last).on]
    congr 2
    exact map_congr_left fun g hg => (hplaced g (mem_groupOf.mp hg).1).symm
  have hbefore : hosts (Work.start i).state.on (groupOf i project affinity) =
      hosts (fun g => g.member) (groupOf i project affinity) := by
    unfold hosts
    congr 2
    exact map_congr_left fun g hg => on_new hkeys (mem_groupOf.mp hg).1
  have hle : hosts (placeAfter (planOf i last).moves) (groupOf i project affinity) ≤
      hosts (fun g => g.member) (groupOf i project affinity) := by
    rw [hafter, ← hbefore]
    exact (hosts_rounds hkeys hgiven hrounds).trans (hosts_hinted hkeys hplain halone (hinted_hints i))
  refine ⟨hle, fun htogether g hg o ho => ?_⟩
  have hone : hosts (fun g => g.member) (groupOf i project affinity) ≤ 1 :=
    hosts_le_one fun x hx => htogether x hx g hg
  exact together_of_hosts_le (hle.trans hone) g hg o ho

/-- The webs of `fleetABC`, which its plan gathers. -/
theorem plan_keeps_affinity_fleetABC :
    ∃ p, @plan ℚ (exact compareNames) fleetABC = some p ∧
      hosts (placeAfter p.moves) (groupOf fleetABC "p" "web") ≤
        hosts (fun g => g.member) (groupOf fleetABC "p" "web") := by
  obtain ⟨p, hp, hgroups⟩ := @plan_keeps_affinity ℚ (exact compareNames) fleetABC (by decide)
  have hnames : ∀ g ∈ fleetABC.guests, '/' ∉ g.project.toList := by decide
  have halone : Alone fleetABC "p" "web" := alone_of_noSlash hnames (by decide) "web"
  have hplain : ∀ g ∈ groupOf fleetABC "p" "web",
      g.hints.pin.getD [] = [] ∧ given g.hints.antiAffinity = none := by decide
  exact ⟨p, hp, (hgroups "p" "web" (by decide) halone hplain).1⟩

def guestIn (project name member : String) (memory : ℚ) (affinity : String) : Guest ℚ :=
  ⟨project, name, member, true, ⟨memory, 1, 1⟩, ⟨memory, 1, 1⟩, { affinity := some affinity }⟩

/-- Two groups of one text: hint `x/g` in project `p`, and hint `g` in project `p/x`. -/
def slashed : PlanInput ℚ where
  members := [memberOf "a" 15 false, memberOf "b" 3 false]
  guests :=
    [guestIn "p" "w1" "a" 1 "x/g", guestIn "p" "w2" "a" 14 "x/g", guestIn "p/x" "v1" "b" 1 "g",
      guestIn "p/x" "v2" "b" 1 "g", guestIn "p/x" "v3" "b" 1 "g"]
  mode := .used
  method := .memory
  balanciness := 100
  maxMoves := 10

/-- With a slash in the name of a project the engine takes two groups for one, and gathering that
takes one of them apart. -/
theorem slash_spreads_group :
    (slashed.guests.map key).Nodup ∧
      (∀ g ∈ groupOf slashed "p" "x/g", g.hints.pin = none ∧ g.hints.antiAffinity = none) ∧
      hosts (fun g => g.member) (groupOf slashed "p" "x/g") = 1 ∧
      (@plan ℚ (exact compareNames) slashed).map
        (fun p => hosts (placeAfter p.moves) (groupOf slashed "p" "x/g")) = some 2 := by
  decide +kernel

end IncusCloud.Balancing
