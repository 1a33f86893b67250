import IncusCloud.Firecloud.Proofs.Sync

/-!
# A sync changes only the settings it keeps in step

A sync writes back, without an ETag, the configuration that it read at its start. Where nothing
else has changed since, it only sets its own keys; with an ETag this is checked.
`network.ovs.connection` may have been set since by the sync itself: then its own write clears it.
-/

namespace IncusCloud.Firecloud

open Lib

variable {ι : Type} {site : Servers} {jobs : ι → ConfigJob} {w w' : ConfigWorld ι} {m k : String} {put : Config}

/-! ### Keys of others -/

def syncedKeys : List String := keyOVSConnection :: globalKeys

/-- Other clients' keys are as they were last given. -/
structure OthersKept (site : Servers) (w : ConfigWorld ι) : Prop where
  others : ∀ m k, k ∉ syncedKeys → (w.view site m).value k = w.given m k
  uncleared : w.cleared = []

/-- No other key has changed since, and the member's own socket was not set. -/
def unchanged (read now : Config) : Bool :=
  (((now ++ read).map (·.1)).all fun k => decide (k ∈ syncedKeys) || decide (now.value k = read.value k)) &&
    (decide (now.value keyOVSConnection = "") || decide (read.value keyOVSConnection ≠ ""))

def writesBackCurrent (site : Servers) (jobs : ι → ConfigJob) (i : ι) (c : ConfigCall)
    (w : ConfigWorld ι) : Prop :=
  match jobs i, c with
  | .sync m _ _, .updateServer _ =>
    unchanged (w.read i) (w.view site m) = true ∧ ∀ e ∈ (w.found i).globalConfig, trimmed e.2 ≠ ""
  | _, _ => True

instance (site : Servers) (jobs : ι → ConfigJob) (i : ι) (c : ConfigCall) (w : ConfigWorld ι) :
    Decidable (writesBackCurrent site jobs i c w) := by
  apply ConfigCall.casesOn (motive := fun c => Decidable (writesBackCurrent site jobs i c w)) c
  all_goals
    intros
    unfold writesBackCurrent
    refine ConfigJob.casesOn (jobs i) ?_ ?_ <;> intros <;> dsimp only <;> infer_instance

theorem unchanged_iff {read now : Config} : unchanged read now = true ↔
    (∀ k, k ∉ syncedKeys → now.value k = read.value k) ∧
      (now.value keyOVSConnection ≠ "" → read.value keyOVSConnection ≠ "") := by
  unfold unchanged
  rw [Bool.and_eq_true, Config.all_keys_iff]
  · refine and_congr (forall_congr' fun k => ?_) ?_
    · simp only [Bool.or_eq_true, decide_eq_true_eq]
      exact or_iff_not_imp_left
    · simp only [Bool.or_eq_true, decide_eq_true_eq]
      exact or_iff_not_imp_left
  · intro k hnow hread
    simp [hnow, hread]

/-! ### Updates -/

theorem value_view_of_global (hk : site.isLocal k = false) (w : ConfigWorld ι) (m m' : String) :
    (w.view site m).value k = (w.view site m').value k := by
  rw [ConfigWorld.value_view, ConfigWorld.value_view, hk]
  rfl

theorem OthersKept.gave (h : OthersKept site w) (m : String) (put : Config) : OthersKept site (w.gave site m put) := by
  refine ⟨fun m' k hk => ?_, h.uncleared⟩
  have hview := ConfigWorld.value_replace site w m put m' k
  show ((w.replace site m put).view site m').value k =
    if site.isLocal k = true ∧ m' ≠ m then w.given m' k else put.value k
  rw [hview, h.others m' k hk]

theorem OthersKept.synced (h : OthersKept site w)
    (hput : ∀ k, k ∉ syncedKeys → put.value k = (w.view site m).value k)
    (hset : ∀ k ∈ syncedKeys, (w.view site m).value k ≠ "" → put.value k ≠ "") :
    OthersKept site (w.synced site m put) := by
  refine ⟨fun m' k hk => ?_, ?_⟩
  · have hview := ConfigWorld.value_replace site w m put m' k
    show ((w.replace site m put).view site m').value k = w.given m' k
    rw [hview, ← h.others m' k hk]
    by_cases hlocal : site.isLocal k = true
    · by_cases hm : m' = m
      · rw [if_neg fun hother => hother.2 hm, hput k hk, hm]
      · rw [if_pos ⟨hlocal, hm⟩]
    · rw [if_neg fun hother => hlocal hother.1, hput k hk]
      exact value_view_of_global (Bool.eq_false_iff.mpr hlocal) w m m'
  · have hnone : w.clears site m put = [] := by
      unfold ConfigWorld.clears
      rw [List.filter_eq_nil_iff]
      intro k _ hcleared
      obtain ⟨hthere, hgone⟩ : (w.view site m).value k ≠ "" ∧ put.value k = "" := of_decide_eq_true hcleared
      by_cases hk : k ∈ syncedKeys
      · exact hset k hk hthere hgone
      · exact hthere ((hput k hk).symm.trans hgone)
    show w.clears site m put ++ w.cleared = []
    rw [hnone, h.uncleared]
    rfl

theorem value_setSocket {etag : Config} (hetag : (w.view site m).same etag = true) (k : String) :
    Config.value (OrdMap.set etag keyOVSConnection ovsConnection) k =
      if k = keyOVSConnection then ovsConnection else (w.view site m).value k := by
  rw [Config.value_set, Config.same_iff.mp hetag k]

theorem value_writeBack {read now : Config} {state : OVNState} (hnow : unchanged read now = true)
    (hstate : ∀ e ∈ state.globalConfig, trimmed e.2 ≠ "") :
    (∀ k, k ∉ syncedKeys → (read.setAll (changes read state.globalConfig)).value k = now.value k) ∧
      ∀ k ∈ syncedKeys, now.value k ≠ "" → (read.setAll (changes read state.globalConfig)).value k ≠ "" := by
  obtain ⟨hothers, hsocket⟩ := unchanged_iff.mp hnow
  have hkey : ∀ e ∈ changes read state.globalConfig, e.1 ∈ globalKeys := fun e he =>
    List.mem_map_of_mem (f := (·.1)) (List.mem_filter.mp he).1
  have hblank : trimmed "" = "" := by decide
  constructor
  · intro k hk
    rcases Config.value_setAll read (changes read state.globalConfig) k with ⟨e, he, rfl, -⟩ | ⟨-, hvalue⟩
    · exact absurd (List.mem_cons_of_mem _ (hkey e he)) hk
    · rw [hvalue, hothers k hk]
  · intro k hk hthere hgone
    rcases Config.value_setAll read (changes read state.globalConfig) k with ⟨e, he, -, hvalue⟩ | ⟨hnot, hvalue⟩
    · -- A setting of MicroOVN that is put.
      rw [hvalue] at hgone
      exact hstate e (List.mem_filter.mp he).1 (by rw [hgone]; exact hblank)
    · rw [hvalue] at hgone
      rcases List.mem_cons.mp hk with rfl | hglobal
      · exact hsocket hthere hgone
      · -- One that is as wanted already.
        obtain ⟨e, he, rfl⟩ : ∃ e ∈ state.globalConfig, e.1 = k := List.mem_map.mp hglobal
        have hwanted : ¬ trimmed (read.value e.1) ≠ trimmed e.2 := by
          intro hdiffers
          have hchange : e ∈ changes read state.globalConfig :=
            List.mem_filter.mpr ⟨he, decide_eq_true hdiffers⟩
          exact hnot (List.mem_map_of_mem hchange)
        rw [hgone, hblank] at hwanted
        exact hstate e he (not_not.mp hwanted).symm

/-! ### Runs -/

def keepingOthers (site : Servers) (jobs : ι → ConfigJob) : Protocol ι ConfigCall (ConfigWorld ι) ConfigAct where
  ok := writesBackCurrent site jobs
  okOutside _ _ := True
  inv := OthersKept site
  rely i w w' := w'.read i = w.read i ∧ w'.found i = w.found i
  guar i w w' := ∀ j, j ≠ i → w'.read j = w.read j ∧ w'.found j = w.found j

variable [DecidableEq ι]

theorem compatible_keepingOthers : Team.Compatible (configuring site jobs) (keepingOthers site jobs) := by
  constructor
  · exact fun i j w w' hij _ _ hguar => hguar j (Ne.symm hij)
  · intro a w w' hinv _ hw'
    obtain rfl := Option.some.inj hw'
    exact ⟨OthersKept.gave hinv a.member a.put, fun _ => ⟨rfl, rfl⟩⟩

theorem suits_keepingOthers : Suits site jobs (keepingOthers site jobs) := by
  intro i w c o hinv hok hfair
  replace hinv : OthersKept site w := hinv
  have hupdate : ∀ m put, ∀ j, j ≠ i →
      (w.update site (jobs i) m put).read j = w.read j ∧ (w.update site (jobs i) m put).found j = w.found j := by
    intro m put j _
    rw [ConfigWorld.read_update, ConfigWorld.found_update]
    exact ⟨rfl, rfl⟩
  rcases configAnswer_cases site jobs i c w o with ⟨read, found, hw, -, hothers⟩ |
    ⟨m, put, etag, rfl, hetag, hw⟩ | ⟨put, rfl, hw⟩
  · rw [hw]
    exact ⟨⟨hinv.others, hinv.uncleared⟩, hothers⟩
  · rw [hw]
    refine ⟨?_, hupdate m put⟩
    cases hjob : jobs i with
    | setup _ _ _ _ => exact hinv.gave m put
    | sync _ _ _ =>
      obtain rfl : put = OrdMap.set etag keyOVSConnection ovsConnection := hfair
      have hvalue := value_setSocket hetag
      refine hinv.synced (fun k hk => ?_) fun k _ hthere => ?_
      · have hne : k ≠ keyOVSConnection := fun heq => hk (heq ▸ List.mem_cons_self)
        rw [hvalue, if_neg hne]
      · rw [hvalue]
        split_ifs
        · decide
        · exact hthere
  · rw [hw]
    refine ⟨?_, hupdate _ put⟩
    cases hjob : jobs i with
    | setup _ _ _ _ => exact hinv.gave _ put
    | sync m _ _ =>
      replace hfair : (jobs i).writes (w.read i) (w.found i) put := hfair
      replace hok : writesBackCurrent site jobs i (.updateServer put) w := hok
      rw [hjob] at hfair
      obtain rfl : put = (w.read i).setAll (changes (w.read i) (w.found i).globalConfig) := hfair
      unfold writesBackCurrent at hok
      rw [hjob] at hok
      obtain ⟨hothers, hset⟩ := value_writeBack hok.1 hok.2
      exact hinv.synced hothers hset

/-- However syncs, setups and the changes of other clients overlap: if, wherever a sync writes back
the configuration that it read, it is as it read it and MicroOVN's settings are not blank, then no
sync changes any other key, or clears one. -/
theorem sync_changes_only_its_keys {start : ConfigWorld ι}
    {s : Procs ι ConfigCall ConfigCall.Answer String (ConfigWorld ι) (Except String Unit × Unit)}
    (hgiven : ∀ m k, start.given m k = (start.view site m).value k) (hcleared : start.cleared = [])
    (hs : Run (configuring site jobs).step (okStep (writesBackCurrent site jobs) fun _ _ => True)
      (allConfiguring jobs start) s) :
    OthersKept site s.world := by
  have hsound : Team.Sound (configuring site jobs) (keepingOthers site jobs) (fun _ _ _ => True) s := by
    refine Team.run_safe (P := keepingOthers site jobs) compatible_keepingOthers (fun _ _ _ _ _ _ => trivial)
      ⟨⟨fun m k _ => (hgiven m k).symm, hcleared⟩, fun i => ?_⟩ hs
    exact safe_prog (P := keepingOthers site jobs) (fun _ _ _ hrely => hrely) suits_keepingOthers
  exact hsound.inv

/-! ### A sync of one member -/

def daemon : Unit → ConfigJob := fun _ => .sync "m1" false true

def onlyMember : ConfigOutcome :=
  { members := [("m1", "ONLINE")], ovn := ⟨"ssl:10.0.0.1:6641", "ca", "cert\n", "key"⟩ }

/-- With its socket set, the member sets MicroOVN's keys and keeps what another client set before. -/
theorem sync_keeps_a_note : ∃ s,
    Run (configuring oneSocket daemon).step (okStep (writesBackCurrent oneSocket daemon) fun _ _ => True)
      (allConfiguring daemon (freshServer Unit [(keyOVSConnection, ovsConnection)])) s ∧
      (s.world.view oneSocket "m1").value keyClientCert = "cert" ∧ OthersKept oneSocket s.world := by
  have hrun : ∃ s,
      Run (configuring oneSocket daemon).step (okStep (writesBackCurrent oneSocket daemon) fun _ _ => True)
        (allConfiguring daemon (freshServer Unit [(keyOVSConnection, ovsConnection)])) s ∧
        (s.world.view oneSocket "m1").value keyClientCert = "cert" := by
    apply Run.exists_of_exec
      (.outside ⟨"m1", [(keyOVSConnection, ovsConnection), ("user.note", "kept")]⟩ ::
        List.replicate 7 (.call () onlyMember))
    decide
  obtain ⟨s, hs, hcert⟩ := hrun
  refine ⟨s, hs, hcert, sync_changes_only_its_keys (fun m k => ?_) rfl hs⟩
  by_cases hk : k = keyOVSConnection
  · rw [hk]
    rfl
  · have hlocal : ¬ oneSocket.isLocal k = true := fun h => hk (of_decide_eq_true h)
    have hnone : OrdMap.get [(keyOVSConnection, ovsConnection)] k = none := by
      rw [OrdMap.get_cons, if_neg fun h => hk h.symm]
      rfl
    rw [ConfigWorld.value_view, if_neg hlocal]
    exact congrArg (Option.getD · "") hnone

/-- A sync reads the configuration, sets the member's socket, and a client sets a key while it lists
the members: writing back what it read, the sync clears both. -/
theorem sync_clears_a_note : ∃ s,
    Run (configuring oneSocket daemon).step (okStep (fun _ _ _ => True) fun _ _ => True)
      (allConfiguring daemon (freshServer Unit [])) s ∧
      s.world.given "m1" "user.note" = "kept" ∧ ¬ OthersKept oneSocket s.world := by
  have hrun : ∃ s,
      Run (configuring oneSocket daemon).step (okStep (fun _ _ _ => True) fun _ _ => True)
        (allConfiguring daemon (freshServer Unit [])) s ∧
        s.world.given "m1" "user.note" = "kept" ∧
          s.world.cleared = ["user.note", keyOVSConnection] := by
    apply Run.exists_of_exec (List.replicate 5 (.call () onlyMember) ++
      [.outside ⟨"m1", [(keyOVSConnection, ovsConnection), ("user.note", "kept")]⟩] ++
      List.replicate 3 (.call () onlyMember))
    decide
  obtain ⟨s, hs, hgiven, hcleared⟩ := hrun
  refine ⟨s, hs, hgiven, fun h => ?_⟩
  have hnone := h.uncleared
  rw [hcleared] at hnone
  cases hnone

end IncusCloud.Firecloud
