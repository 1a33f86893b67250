import IncusCloud.Fleet.Inventory

/-!
# A refresh is not lost

`inventory_at` says both that a refresh is due (null) and when the cluster was last read. A pass
that began to read before a refresh and writes after it takes the refresh away: `refresh_never_lost`
holds along the runs in which no pass does, and fails at the first that does.
-/

namespace IncusCloud.Fleet

open Lib Option

namespace Inventory

variable {s t : Inventory} {i : ℕ} {from_ : PassPhase → Bool} {phase : PassPhase} {now : Int}

/-- A pass whose `collect` began after the latest refresh has written. -/
def ReadSince (s : Inventory) : Prop :=
  s.refreshes = 0 ∨ ∃ p ∈ s.passes, p.wrote = true ∧ p.began = s.refreshes

instance (s : Inventory) : Decidable s.ReadSince := inferInstanceAs (Decidable (_ ∨ _))

/-- While the column is not null, the cluster was read after the latest refresh. -/
def NeverLost (s : Inventory) : Prop := s.inventoryAt ≠ none → s.ReadSince

instance (s : Inventory) : Decidable s.NeverLost := inferInstanceAs (Decidable (_ → _))

def MayWrite (s : Inventory) (i : ℕ) : Prop :=
  s.ReadSince ∨ ∃ p, s.passes[i]? = some p ∧ p.began = s.refreshes

instance (s : Inventory) (i : ℕ) : Decidable (s.MayWrite i) :=
  inferInstanceAs (Decidable (_ ∨ _))

/-- What keeps refreshes: a write of `inventory_at` comes from a pass that began to read after the
latest refresh, unless one that did has written already. -/
def Keeps (s : Inventory) : InventoryAction → Prop
  | .applySnapshot i _ => s.MayWrite i
  | .recordError i _ => s.MayWrite i
  | _ => True

instance : ∀ (s : Inventory) (a : InventoryAction), Decidable (s.Keeps a)
  | s, .applySnapshot i _ => inferInstanceAs (Decidable (s.MayWrite i))
  | s, .recordError i _ => inferInstanceAs (Decidable (s.MayWrite i))
  | _, .refreshInventory | _, .setDisabled _ | _, .select _ _ | _, .collect _ | _, .collected _
  | _, .finish _ | _, .fail _ | _, .leave _ => inferInstanceAs (Decidable True)

variable {next : InventoryPass → InventoryPass}

theorem goOn_cases (h : s.goOn i from_ next = some t) :
    ∃ p, s.passes[i]? = some p ∧ from_ p.phase = true ∧
      t = { s with passes := s.passes.set i (next p) } := by
  unfold goOn at h
  split at h
  · rename_i p hp
    split_ifs at h with hfrom
    exact ⟨p, hp, hfrom, (some.inj h).symm⟩
  · cases h

theorem write_cases (h : s.write i from_ phase now = some t) :
    ∃ p, s.passes[i]? = some p ∧
      t = { s with
        inventoryAt := some now
        passes := s.passes.set i { p with phase := phase, wrote := true } } := by
  obtain ⟨u, hu, rfl⟩ := map_eq_some_iff.mp h
  obtain ⟨p, hp, -, rfl⟩ := goOn_cases hu
  exact ⟨p, hp, rfl⟩

theorem ReadSince.set {p q : InventoryPass} (h : s.ReadSince)
    (hp : s.passes[i]? = some p) (hq : p.wrote = true → q.wrote = true ∧ q.began = p.began)
    (inventoryAt : Option Int) :
    ({ s with inventoryAt := inventoryAt, passes := s.passes.set i q } : Inventory).ReadSince := by
  rcases h with h | ⟨r, hr, hwrote, hbegan⟩
  · exact .inl h
  · right
    rcases mem_set_of_mem hr hp q with rfl | hr
    · have hlt : i < s.passes.length := (List.getElem?_eq_some_iff.mp hp).1
      obtain ⟨hw, hb⟩ := hq hwrote
      exact ⟨q, List.mem_set hlt q, hw, hb.trans hbegan⟩
    · exact ⟨r, hr, hwrote, hbegan⟩

theorem NeverLost.goOn (h : s.NeverLost) (hs : s.goOn i from_ next = some t)
    (hnext : ∀ p, from_ p.phase = true → p.wrote = true →
      (next p).wrote = true ∧ (next p).began = p.began) : t.NeverLost := by
  obtain ⟨p, hp, hfrom, rfl⟩ := goOn_cases hs
  intro hat
  exact (h hat).set hp (hnext p hfrom) s.inventoryAt

/-- After a write the column is not null, so the cluster must have been read since: the write is one
that keeps refreshes, and no other. -/
theorem write_iff (hs : s.write i from_ phase now = some t) : t.NeverLost ↔ s.MayWrite i := by
  obtain ⟨p, hp, rfl⟩ := write_cases hs
  have hlt : i < s.passes.length := (List.getElem?_eq_some_iff.mp hp).1
  constructor
  · intro h
    -- Whoever has read since is another pass that wrote before, or this one.
    rcases h nofun with h | ⟨r, hr, hwrote, hbegan⟩
    · exact .inl (.inl h)
    · rcases List.mem_or_eq_of_mem_set hr with hr | rfl
      · exact .inl (.inr ⟨r, hr, hwrote, hbegan⟩)
      · exact .inr ⟨p, hp, hbegan⟩
  · intro h _
    rcases h with h | ⟨r, hr, hbegan⟩
    · apply h.set hp
      exact fun _ => ⟨rfl, rfl⟩
    · obtain rfl : p = r := some.inj (hp.symm.trans hr)
      exact .inr ⟨_, List.mem_set hlt _, rfl, hbegan⟩

def SelectedUnwritten (s : Inventory) : Prop :=
  ∀ p ∈ s.passes, p.phase = .selected → p.wrote = false

theorem SelectedUnwritten.goOn (h : s.SelectedUnwritten)
    (hs : s.goOn i from_ next = some t) (hnext : ∀ p, (next p).phase ≠ .selected) :
    t.SelectedUnwritten := by
  obtain ⟨p, -, -, rfl⟩ := goOn_cases hs
  intro r hr hphase
  rcases List.mem_or_eq_of_mem_set hr with hr | rfl
  · exact h r hr hphase
  · exact absurd hphase (hnext p)

theorem SelectedUnwritten.write (h : s.SelectedUnwritten)
    (hs : s.write i from_ phase now = some t) (hphase : phase ≠ .selected) :
    t.SelectedUnwritten := by
  obtain ⟨u, hu, rfl⟩ := map_eq_some_iff.mp hs
  intro r hr
  exact h.goOn hu (fun _ => hphase) r hr

/-- No request is lost, before a pass has selected it or after. -/
structure Sound (s : Inventory) : Prop where
  neverLost : s.NeverLost
  unwritten : s.SelectedUnwritten

theorem Sound.goOn (h : s.Sound) (hs : s.goOn i from_ next = some t)
    (hphase : ∀ p, (next p).phase ≠ .selected)
    (hnext : ∀ p, from_ p.phase = true → p.wrote = true →
      (next p).wrote = true ∧ (next p).began = p.began) : t.Sound :=
  ⟨h.neverLost.goOn hs hnext, h.unwritten.goOn hs hphase⟩

theorem Sound.write (h : s.Sound) (hs : s.write i from_ phase now = some t)
    (hphase : phase ≠ .selected) (hok : s.MayWrite i) : t.Sound :=
  ⟨(write_iff hs).mpr hok, h.unwritten.write hs hphase⟩

theorem Sound.collect (h : s.Sound) (hs : s.step (.collect i) = some t) : t.Sound := by
  unfold Inventory.step at hs
  refine ⟨?_, h.unwritten.goOn hs fun _ => nofun⟩
  obtain ⟨p, hp, hfrom, rfl⟩ := goOn_cases hs
  -- Only a pass that has written counts, and this one has just been selected.
  have hunwritten : p.wrote = false :=
    h.unwritten p (List.mem_of_getElem? hp) (of_decide_eq_true hfrom)
  intro hat
  refine (h.neverLost hat).set hp (fun hwrote => ?_) s.inventoryAt
  rw [hunwritten] at hwrote
  cases hwrote

theorem Sound.select {intervalMs : Int} (h : s.Sound)
    (hs : s.step (.select now intervalMs) = some t) : t.Sound := by
  unfold step at hs
  dsimp only at hs
  split_ifs at hs
  obtain rfl := some.inj hs
  constructor
  · intro hat
    rcases h.neverLost hat with h | ⟨r, hr, hread⟩
    · exact .inl h
    · exact .inr ⟨r, List.mem_append_left _ hr, hread⟩
  · intro p hp hphase
    rcases List.mem_append.mp hp with hp | hp
    · exact h.unwritten p hp hphase
    · obtain rfl := List.mem_singleton.mp hp
      rfl

theorem Sound.step {a : InventoryAction} (h : s.Sound) (hok : s.Keeps a)
    (hs : s.step a = some t) : t.Sound := by
  cases a with
  | refreshInventory =>
    obtain rfl := some.inj hs
    exact ⟨fun hat => absurd rfl hat, h.unwritten⟩
  | setDisabled disabled =>
    obtain rfl := some.inj hs
    exact ⟨h.neverLost, h.unwritten⟩
  | select now intervalMs => exact h.select hs
  | collect i => exact h.collect hs
  | collected i =>
    unfold Inventory.step at hs
    exact h.goOn hs (fun _ => nofun) fun _ _ hwrote => ⟨hwrote, rfl⟩
  | applySnapshot i now => exact h.write hs nofun hok
  | finish i =>
    unfold Inventory.step at hs
    exact h.goOn hs (fun _ => nofun) fun _ _ hwrote => ⟨hwrote, rfl⟩
  | fail i =>
    unfold Inventory.step at hs
    exact h.goOn hs (fun _ => nofun) fun _ _ hwrote => ⟨hwrote, rfl⟩
  | recordError i now => exact h.write hs nofun hok
  | leave i =>
    unfold Inventory.step at hs
    exact h.goOn hs (fun _ => nofun) fun _ _ hwrote => ⟨hwrote, rfl⟩

/-- The cluster before the first refresh, with no pass over it. -/
def start (inventoryAt : Option Int) (disabled : Bool) : Inventory := ⟨inventoryAt, disabled, 0, []⟩

theorem start_sound (inventoryAt : Option Int) (disabled : Bool) :
    (start inventoryAt disabled).Sound :=
  ⟨fun _ => .inl rfl, nofun⟩

/-- While every write of the column comes from a pass that began to read after the latest refresh
(or follows the write of one that did), no refresh is lost; the first other write loses one. -/
theorem refresh_never_lost (inventoryAt : Option Int) (disabled : Bool) :
    (∀ t, Run Inventory.step Keeps (start inventoryAt disabled) t → t.NeverLost) ∧
      ∀ (t : Inventory) (a : InventoryAction) (u : Inventory),
        t.step a = some u → ¬ t.Keeps a → ¬ u.NeverLost := by
  constructor
  · intro t ht
    exact (ht.invariant (start_sound inventoryAt disabled) fun _ _ _ h hok hs =>
      h.step hok hs).neverLost
  · intro t a u hs hok
    cases a with
    | applySnapshot i now => exact fun h => hok ((write_iff hs).mp h)
    | recordError i now => exact fun h => hok ((write_iff hs).mp h)
    | _ => exact absurd trivial hok

/-- A pass that reads after a refresh, with one that began before it recording its error later. -/
theorem refresh_never_lost_overlapping : ∃ t : Inventory,
    Run Inventory.step Keeps (start (some 0) false) t ∧ t.inventoryAt = some 300 ∧ t.refreshes = 1 ∧
      t.NeverLost := by
  have hexec : ((Run.exec Inventory.step Keeps (start (some 0) false)
      [.select 100 60, .collect 0, .refreshInventory, .select 101 60, .collect 1, .collected 1,
        .applySnapshot 1 200, .fail 0, .recordError 0 300]).map fun t =>
      (t.inventoryAt, t.refreshes)) = some (some 300, 1) := by
    decide
  obtain ⟨t, ht, hshown⟩ := map_eq_some_iff.mp hexec
  have hrun := Run.of_exec .refl ht
  have hat : t.inventoryAt = some 300 := congrArg Prod.fst hshown
  exact ⟨t, hrun, hat, congrArg Prod.snd hshown, (refresh_never_lost (some 0) false).1 t hrun⟩

/-- A pass reads, the cluster is asked for again, and the pass writes what it read before. -/
theorem refresh_lost : ¬ ∀ t : Inventory,
    Run Inventory.step (fun _ _ => True) (start none false) t → t.NeverLost := by
  intro h
  have hexec : ((Run.exec Inventory.step (fun _ _ => True) (start none false)
      [.select 100 60, .collect 0, .refreshInventory, .collected 0, .applySnapshot 0 200]).map fun t =>
      decide t.NeverLost) = some false := by
    decide
  obtain ⟨t, ht, hshown⟩ := map_eq_some_iff.mp hexec
  exact of_decide_eq_false hshown (h t (Run.of_exec .refl ht))

end Inventory

end IncusCloud.Fleet
