import IncusCloud.Firecloud.Sync

/-!
# What syncs and setups write

What a member shows after an update, and what the processes' updates are at most: `Fair`. A process
writes back the configuration that it read, with the keys it keeps in step set; whatever is asked of
such calls holds of all processes (`safe_prog`).
-/

namespace IncusCloud.Firecloud

open Lib Handler List
open Function (update_self update_of_ne)

variable {ι : Type}

/-! ### Values -/

namespace Config

variable {c c' changes : Config} {k : String}
  {name : String} {ceph ovn : Bool} {systems : List String}

theorem value_set (c : Config) (k v k' : String) :
    Config.value (OrdMap.set c k v) k' = if k' = k then v else c.value k' := by
  unfold Config.value
  rw [OrdMap.get_set]
  split_ifs
  · rfl
  · rfl

theorem value_setAll (c changes : Config) (k : String) :
    (∃ e ∈ changes, e.1 = k ∧ (c.setAll changes).value k = e.2) ∨
      (k ∉ changes.map (·.1) ∧ (c.setAll changes).value k = c.value k) := by
  induction changes generalizing c with
  | nil => exact .inr ⟨not_mem_nil, rfl⟩
  | cons e changes ih =>
    have hfirst := value_set c e.1 e.2 k
    rcases ih (OrdMap.set c e.1 e.2) with ⟨e', he', hk, hvalue⟩ | ⟨hnot, hvalue⟩
    · exact .inl ⟨e', mem_cons_of_mem _ he', hk, hvalue⟩
    · have hsame : (c.setAll (e :: changes)).value k = Config.value (OrdMap.set c e.1 e.2) k := hvalue
      by_cases hk : k = e.1
      · rw [if_pos hk] at hfirst
        exact .inl ⟨e, mem_cons_self, hk.symm, hsame.trans hfirst⟩
      · rw [if_neg hk] at hfirst
        refine .inr ⟨fun hmem => ?_, hsame.trans hfirst⟩
        rcases mem_cons.mp hmem with heq | hmem
        · exact hk heq
        · exact hnot hmem

theorem mem_setAll {e : String × String} (h : e ∈ c.setAll changes) : e ∈ c ∨ e ∈ changes := by
  induction changes generalizing c with
  | nil => exact .inl h
  | cons e' changes ih =>
    have hrest : e ∈ Config.setAll (OrdMap.set c e'.1 e'.2) changes := h
    rcases ih hrest with h | h
    · rcases OrdMap.mem_set h with rfl | h
      · exact .inr mem_cons_self
      · exact .inl h
    · exact .inr (mem_cons_of_mem _ h)

variable {p : String → Bool}

theorem value_filter (c : Config) {k : String} (hk : p k = true) :
    Config.value (c.filter fun e => p e.1) k = c.value k := by
  unfold Config.value OrdMap.get
  rw [List.find?_filter]
  have hsame : (fun e : String × String => decide (p e.1 = true ∧ decide (e.1 = k) = true)) =
      fun e => decide (e.1 = k) := by
    funext e
    by_cases he : e.1 = k
    · simp [he, hk]
    · simp [he]
  rw [hsame]

theorem get_filter_of_not (c : Config) {k : String} (hk : p k = false) :
    OrdMap.get (c.filter fun e => p e.1) k = none := by
  have hnot : ¬ (OrdMap.get (c.filter fun e => p e.1) k).isSome = true := by
    rw [OrdMap.isSome_get]
    intro hmem
    obtain ⟨e, he, rfl⟩ := List.mem_map.mp hmem
    have hp : p e.1 = true := of_decide_eq_true (by simpa using (mem_filter.mp he).2)
    rw [hk] at hp
    cases hp
  exact Option.not_isSome_iff_eq_none.mp hnot

theorem value_of_not_mem (h : k ∉ c.map (·.1)) : c.value k = "" := by
  have hnone : c.get k = none := Option.not_isSome_iff_eq_none.mp fun hsome =>
    h ((OrdMap.isSome_get c k).mp hsome)
  unfold Config.value
  rw [hnone]
  rfl

theorem all_keys_iff (hp : ∀ k, c.value k = "" → c'.value k = "" → p k = true) :
    ((c ++ c').map (·.1)).all p = true ↔ ∀ k, p k = true := by
  rw [all_eq_true]
  refine ⟨fun h k => ?_, fun h k _ => h k⟩
  by_cases hk : k ∈ (c ++ c').map (·.1)
  · exact h k hk
  · rw [map_append, mem_append, not_or] at hk
    exact hp k (value_of_not_mem hk.1) (value_of_not_mem hk.2)

theorem same_iff : c.same c' = true ↔ ∀ k, c.value k = c'.value k := by
  unfold same
  rw [all_keys_iff fun k h h' => decide_eq_true (h.trans h'.symm)]
  exact forall_congr' fun k => decide_eq_true_iff

end Config

/-! ### Views -/

namespace ConfigWorld

variable {site : Servers} {w : ConfigWorld ι} {m m' k : String} {put : Config}

theorem value_view (site : Servers) (w : ConfigWorld ι) (m k : String) :
    (w.view site m).value k = if site.isLocal k then (w.member m).value k else w.cluster.value k := by
  have happend : (w.view site m).value k = ((OrdMap.get (w.cluster.filter fun e => !site.isLocal e.1) k).or
      (OrdMap.get ((w.member m).filter fun e => site.isLocal e.1) k)).getD "" :=
    congrArg (Option.getD · "") (OrdMap.get_append _ _ k)
  rw [happend]
  split_ifs with hlocal
  · rw [Config.get_filter_of_not w.cluster (p := fun k => !site.isLocal k) (by rw [hlocal]; rfl),
      Option.none_or]
    exact Config.value_filter (w.member m) hlocal
  · rw [Config.get_filter_of_not (w.member m) (Bool.eq_false_iff.mpr hlocal), Option.or_none]
    exact Config.value_filter w.cluster (p := fun k => !site.isLocal k)
      (by rw [Bool.eq_false_iff.mpr hlocal]; rfl)

theorem value_replace (site : Servers) (w : ConfigWorld ι) (m : String) (put : Config)
    (m' k : String) : ((w.replace site m put).view site m').value k =
      if site.isLocal k ∧ m' ≠ m then (w.view site m').value k else put.value k := by
  rw [value_view, value_view]
  by_cases hlocal : site.isLocal k = true
  · rw [if_pos hlocal, if_pos hlocal]
    by_cases hm : m' = m
    · rw [if_neg fun h => h.2 hm, hm]
      show Config.value (Function.update w.member m _ m) k = _
      rw [update_self]
      exact Config.value_filter put hlocal
    · rw [if_pos ⟨hlocal, hm⟩]
      show Config.value (Function.update w.member m _ m') k = _
      rw [update_of_ne hm]
  · rw [if_neg hlocal, if_neg fun h => hlocal h.1]
    exact Config.value_filter put (p := fun k => !site.isLocal k)
      (by rw [Bool.eq_false_iff.mpr hlocal]; rfl)

theorem view_update (job : ConfigJob) :
    (w.update site job m put).view site m' = (w.replace site m put).view site m' := by
  cases job with
  | sync => rfl
  | setup => rfl

theorem read_update (job : ConfigJob) : (w.update site job m put).read = w.read := by
  cases job with
  | sync => rfl
  | setup => rfl

theorem found_update (job : ConfigJob) : (w.update site job m put).found = w.found := by
  cases job with
  | sync => rfl
  | setup => rfl

theorem write_cases (site : Servers) (w : ConfigWorld ι) (job : ConfigJob) (m : String) (put : Config)
    (o : ConfigOutcome) : (w.write site job m put o).2 = w ∨ (w.write site job m put o).2 =
      w.update site job m put := by
  unfold write
  split_ifs
  · exact .inr rfl
  · exact .inl rfl
  · exact .inr rfl

end ConfigWorld

/-! ### Calls that are fair -/

def globalKeys : List String := [keyNorthbound, keyCACert, keyClientCert, keyClientKey]

/-- What a process writes back, of the configuration and MicroOVN's settings as it read them. -/
def ConfigJob.writes (job : ConfigJob) (server : Config) (state : OVNState) (put : Config) : Prop :=
  match job with
  | .sync _ _ _ => put = server.setAll (changes server state.globalConfig)
  | .setup _ systems _ _ => ∃ config, put = server.setAll config ∧
      ∀ e ∈ config, e.1 ∈ globalKeys ∨ e.1 = keyLVMHostIDs ∧
        ∃ existing ids, parseHostIDs (server.value keyLVMHostIDs) = .ok existing ∧
          assignHostIDs existing systems = .ok ids ∧ e.2 = formatHostIDs ids

def Fair (job : ConfigJob) (i : ι) (w : ConfigWorld ι) : ConfigCall → Prop
  | .updateTarget _ put etag => put = OrdMap.set etag keyOVSConnection ovsConnection
  | .updateServer put => job.writes (w.read i) (w.found i) put
  | _ => True

def ConfigCall.isBlind : ConfigCall → Bool
  | getServer => false
  | readOVN => false
  | _ => true

section Programs

variable [DecidableEq ι] {site : Servers} {jobs : ι → ConfigJob} {i : ι}
  {P : Protocol ι ConfigCall (ConfigWorld ι) ConfigAct} {J : ConfigWorld ι → Prop} {l : Unit}
  {w w' : ConfigWorld ι} {c : ConfigCall} {o : ConfigOutcome}

theorem configAnswer_cases (site : Servers) (jobs : ι → ConfigJob) (i : ι) (c : ConfigCall)
    (w : ConfigWorld ι) (o : ConfigOutcome) :
    (∃ read found, (configAnswer site jobs i c w o).2 = { w with read := read, found := found } ∧
      (c.isBlind = true → read = w.read ∧ found = w.found) ∧
        ∀ j, j ≠ i → read j = w.read j ∧ found j = w.found j) ∨
      (∃ m put etag, c = .updateTarget m put etag ∧ (w.view site m).same etag = true ∧
        (configAnswer site jobs i c w o).2 = w.update site (jobs i) m put) ∨
      ∃ put, c = .updateServer put ∧
        (configAnswer site jobs i c w o).2 = w.update site (jobs i) (jobs i).home put := by
  have hsame : ∀ v : ConfigWorld ι, v = w → ∃ read found, v = { w with read := read, found := found } ∧
      (c.isBlind = true → read = w.read ∧ found = w.found) ∧
        ∀ j, j ≠ i → read j = w.read j ∧ found j = w.found j :=
    fun v hv => ⟨w.read, w.found, hv, fun _ => ⟨rfl, rfl⟩, fun _ _ => ⟨rfl, rfl⟩⟩
  cases c with
  | getServer =>
    refine .inl ⟨Function.update w.read i (w.view site (jobs i).home), w.found, rfl,
      fun h => (nomatch h), fun j hj => ⟨update_of_ne hj _ _, rfl⟩⟩
  | readOVN =>
    left
    show ∃ read found, (w.readState i o).2 = _ ∧ _
    unfold ConfigWorld.readState
    split_ifs
    · exact hsame w rfl
    · exact ⟨w.read, Function.update w.found i o.ovn.trimmed, rfl, fun h => (nomatch h),
        fun j hj => ⟨rfl, update_of_ne hj _ _⟩⟩
  | updateTarget m put etag =>
    have hanswer : (configAnswer site jobs i (.updateTarget m put etag) w o).2 =
        (w.writeMatched site (jobs i) m put etag o).2 := rfl
    unfold ConfigWorld.writeMatched at hanswer
    by_cases hetag : (w.view site m).same etag = true
    · rw [if_pos hetag] at hanswer
      rcases w.write_cases site (jobs i) m put o with hw | hw
      · exact .inl (hsame _ (hanswer.trans hw))
      · exact .inr (.inl ⟨m, put, etag, rfl, hetag, hanswer.trans hw⟩)
    · rw [if_neg hetag] at hanswer
      exact .inl (hsame _ hanswer)
  | updateServer put =>
    rcases w.write_cases site (jobs i) (jobs i).home put o with hw | hw
    · exact .inl (hsame _ hw)
    · exact .inr (.inr ⟨put, rfl, hw⟩)
  | _ => exact .inl (hsame _ rfl)

def Kept (P : Protocol ι ConfigCall (ConfigWorld ι) ConfigAct) : Prop :=
  ∀ i w w', P.rely i w w' → w'.read i = w.read i ∧ w'.found i = w.found i

def Suits (site : Servers) (jobs : ι → ConfigJob)
    (P : Protocol ι ConfigCall (ConfigWorld ι) ConfigAct) : Prop :=
  ∀ i w c o, P.inv w → P.ok i c w → Fair (jobs i) i w c →
    P.inv (configAnswer site jobs i c w o).2 ∧ P.guar i w (configAnswer site jobs i c w o).2

theorem read_answer (site : Servers) (jobs : ι → ConfigJob) (i : ι) (w : ConfigWorld ι)
    (o : ConfigOutcome) (hc : c.isBlind = true) :
    (configAnswer site jobs i c w o).2.read = w.read ∧ (configAnswer site jobs i c w o).2.found =
      w.found := by
  rcases configAnswer_cases site jobs i c w o with ⟨read, found, hw, hblind, -⟩ | ⟨m, put, etag, -,
    -, hw⟩ | ⟨put, -, hw⟩
  · rw [hw]
    exact hblind hc
  · rw [hw, ConfigWorld.read_update, ConfigWorld.found_update]
    exact ⟨rfl, rfl⟩
  · rw [hw, ConfigWorld.read_update, ConfigWorld.found_update]
    exact ⟨rfl, rfl⟩

def Knows (i : ι) (server : Config) (state : OVNState) (w : ConfigWorld ι) : Prop :=
  w.read i = server ∧ w.found i = state

variable {server : Config} {state : OVNState}

omit [DecidableEq ι] in
theorem Knows.kept (hkept : Kept P) (hw : P.rely i w w') (h : Knows i server state w) :
    Knows i server state w' := by
  obtain ⟨hread, hfound⟩ := hkept i w w' hw
  exact ⟨hread.trans h.1, hfound.trans h.2⟩

theorem maintains_fair (hkept : Kept P) (hsuits : Suits site jobs P) (hc : c.isBlind = true)
    (hfair : ∀ w, Knows i server state w → Fair (jobs i) i w c) :
    Maintains (configuring site jobs) P i (Knows i server state)
      (Handler.call c : Configuring c.Answer) := by
  refine .call (fun _ _ hw h => h.kept hkept hw) fun w o r hw hinv hok hr => ?_
  obtain rfl := Option.some.inj hr
  obtain ⟨hinv', hguar⟩ := hsuits i w c o hinv hok (hfair w hw)
  obtain ⟨hread, hfound⟩ := read_answer site jobs i w o hc
  exact ⟨hinv', hguar, (congrFun hread i).trans hw.1, (congrFun hfound i).trans hw.2⟩

theorem safe_getServer (hkept : Kept P) (hsuits : Suits site jobs P) (hw : Knows i server state w) :
    safe (configuring site jobs) P i (fun (answer : Config × Bool) _ => Knows i answer.1 state)
      (fun _ _ w => ∃ server, Knows i server state w) Configuring.getServer l w := by
  refine safe_call (c := ConfigCall.getServer) (fun _ _ hw h => Knows.kept hkept hw h)
    (fun w o r hw hinv hok hr => ?_) hw
  obtain rfl := Option.some.inj hr
  obtain ⟨hinv', hguar⟩ := hsuits i w .getServer o hinv hok trivial
  refine ⟨hguar, ?_⟩
  have hread : Function.update w.read i (w.view site (jobs i).home) i = w.view site (jobs i).home :=
    update_self _ _ _
  replace hinv' : P.inv (w.readServer site i (jobs i).home o).2 := hinv'
  show Handler.Met P.inv (fun answer w => Knows i answer.1 state w)
    (fun _ w => ∃ server, Knows i server state w) (w.readServer site i (jobs i).home o)
  refine ⟨hinv', ?_⟩
  unfold ConfigWorld.readServer ConfigWorld.look
  by_cases hfails : o.fails = true
  · rw [if_pos hfails]
    exact ⟨w.view site (jobs i).home, hread, hw.2⟩
  · rw [if_neg hfails]
    exact ⟨hread, hw.2⟩

theorem safe_readOVN (hkept : Kept P) (hsuits : Suits site jobs P) (hw : Knows i server state w) :
    safe (configuring site jobs) P i (fun (state : OVNState) _ => Knows i server state)
      (fun _ _ w => ∃ state, Knows i server state w) Configuring.readOVN l w := by
  refine safe_call (c := ConfigCall.readOVN) (fun _ _ hw h => Knows.kept hkept hw h)
    (fun w o r hw hinv hok hr => ?_) hw
  obtain rfl := Option.some.inj hr
  obtain ⟨hinv', hguar⟩ := hsuits i w .readOVN o hinv hok trivial
  refine ⟨hguar, ?_⟩
  have hfound : Function.update w.found i o.ovn.trimmed i = o.ovn.trimmed := update_self _ _ _
  replace hinv' : P.inv (w.readState i o).2 := hinv'
  show Handler.Met P.inv (fun state w => Knows i server state w)
    (fun _ w => ∃ state, Knows i server state w) (w.readState i o)
  refine ⟨hinv', ?_⟩
  unfold ConfigWorld.readState
  by_cases hnone : o.ovn.northbound = ""
  · rw [if_pos hnone]
    exact ⟨state, hw⟩
  · rw [if_neg hnone]
    unfold ConfigWorld.look
    by_cases hfails : o.fails = true
    · rw [if_pos hfails]
      exact ⟨o.ovn.trimmed, hw.1, hfound⟩
    · rw [if_neg hfails]
      exact ⟨hw.1, hfound⟩

/-! ### Syncs -/

theorem maintains_free (hsuits : Suits site jobs P) (hfair : ∀ w, Fair (jobs i) i w c) :
    Maintains (configuring site jobs) P i (fun _ => True) (Handler.call c : Configuring c.Answer) := by
  refine .call (fun _ _ _ _ => trivial) fun w o r _ hinv hok hr => ?_
  obtain rfl := Option.some.inj hr
  obtain ⟨hinv', hguar⟩ := hsuits i w c o hinv hok (hfair w)
  exact ⟨hinv', hguar, trivial⟩

theorem maintains_firstOnlineMember (hkept : Kept P) (hsuits : Suits site jobs P) :
    Maintains (configuring site jobs) P i (Knows i server state) firstOnlineMember := by
  refine .bind (maintains_fair hkept hsuits (c := .clusterMembers) rfl fun _ _ => trivial) fun members => ?_
  dsimp only
  split
  · exact .throw _
  · exact .pure _

theorem maintains_attempt {α : Type} {m : Configuring α}
    (hm : Maintains (configuring site jobs) P i J m) :
    Maintains (configuring site jobs) P i J (attempt m) :=
  .tryCatch (.bind hm fun _ => .pure _) fun _ => .pure _

variable {m : String}

theorem safe_syncGlobal (hkept : Kept P) (hsuits : Suits site jobs P)
    (hjob : jobs i = .sync m ceph ovn) (hw : Knows i server state w) :
    safe (configuring site jobs) P i (fun _ _ _ => True) (fun _ _ _ => True)
      (syncGlobal name server) l w := by
  unfold syncGlobal
  rw [safe_bind]
  refine (maintains_firstOnlineMember hkept hsuits).safe hw (fun writer l w hw => ?_) fun _ _ _ _ => trivial
  split_ifs
  · trivial
  · rw [safe_bind]
    refine safe_mono (fun state l w hw => ?_) (fun _ _ _ _ => trivial) (safe_readOVN hkept hsuits hw)
    dsimp only
    generalize hchanges : changes server state.globalConfig = changes
    split_ifs
    · trivial
    · have hfair : ∀ w, Knows i server state w →
          Fair (jobs i) i w (.updateServer (server.setAll changes)) := by
        intro w hw
        show (jobs i).writes (w.read i) (w.found i) _
        rw [hjob, hw.1, hw.2, ← hchanges]
        rfl
      have hupdate := maintains_attempt (maintains_fair hkept hsuits rfl hfair)
      rw [safe_bind]
      exact hupdate.safe hw (fun _ _ _ _ => trivial) fun _ _ _ _ => trivial

theorem maintains_setMemberConfig (hkept : Kept P) (hsuits : Suits site jobs P) :
    Maintains (configuring site jobs) P i (Knows i server state)
      (setMemberConfig name keyOVSConnection ovsConnection) := by
  refine .bind (maintains_fair hkept hsuits (c := .getTarget name) rfl fun _ _ => trivial) fun config => ?_
  split_ifs
  · exact .pure _
  · exact maintains_fair hkept hsuits (c := .updateTarget name _ config) rfl fun _ _ => rfl

theorem maintains_syncSocket (hkept : Kept P) (hsuits : Suits site jobs P) :
    Maintains (configuring site jobs) P i (Knows i server state) (syncSocket name) := by
  refine .bind (maintains_fair hkept hsuits (c := .getTarget name) rfl fun _ _ => trivial) fun config => ?_
  split_ifs
  · exact .pure _
  · refine .bind (maintains_fair hkept hsuits (c := .updateTarget name _ config) rfl fun _ _ => rfl)
      fun _ => ?_
    exact .pure _

theorem safe_syncOVN (hkept : Kept P) (hsuits : Suits site jobs P)
    (hjob : jobs i = .sync m ceph ovn) (hw : Knows i server state w) :
    safe (configuring site jobs) P i (fun _ _ _ => True) (fun _ _ _ => True)
      (syncOVN name server) l w := by
  unfold syncOVN
  rw [safe_bind]
  refine (maintains_fair hkept hsuits (c := .hasOVN) rfl fun _ _ => trivial).safe hw (fun there l w hw => ?_)
    fun _ _ _ _ => trivial
  split_ifs
  · trivial
  · rw [safe_bind]
    refine (maintains_attempt (maintains_syncSocket hkept hsuits)).safe hw (fun socket l w hw => ?_)
      fun _ _ _ _ => trivial
    cases socket with
    | error e => trivial
    | ok applied =>
      unfold attempt
      rw [safe_bind, safe_tryCatch, safe_bind]
      refine safe_mono (fun _ _ _ _ => trivial) (fun _ _ _ _ => trivial)
        (safe_syncGlobal hkept hsuits hjob hw)

theorem maintains_syncLVM (hsuits : Suits site jobs P) :
    Maintains (configuring site jobs) P i (fun _ => True) (syncLVM name server) := by
  unfold syncLVM
  dsimp only
  split_ifs
  · exact .pure _
  · split
    · exact .pure _
    · split
      · exact .pure _
      · exact maintains_free hsuits (c := .ensureLVMLocking _) fun _ => trivial

theorem safe_syncAll (hkept : Kept P) (hsuits : Suits site jobs P)
    (hjob : jobs i = .sync m ceph ovn) :
    safe (configuring site jobs) P i (fun _ _ _ => True) (fun _ _ _ => True)
      (syncAll name ceph ovn) l w := by
  unfold syncAll
  rw [safe_bind]
  have hceph : Maintains (configuring site jobs) P i (Knows i (w.read i) (w.found i))
      (applying ceph ([], none) Configuring.syncCeph) := by
    unfold applying
    split_ifs
    · exact maintains_fair hkept hsuits (c := .syncCeph) rfl fun _ _ => trivial
    · exact .pure _
  refine hceph.safe ⟨rfl, rfl⟩ (fun first l' w' hw => ?_) fun _ _ _ _ => trivial
  unfold attempt
  rw [safe_bind, safe_tryCatch, safe_bind, safe_bind]
  refine (maintains_fair hkept hsuits (c := .connect) rfl fun _ _ => trivial).safe hw (fun _ l w hw => ?_)
    fun _ _ _ _ => trivial
  refine safe_mono (fun answer l w hw => ?_) (fun _ _ _ _ => trivial) (safe_getServer hkept hsuits hw)
  obtain ⟨config, clustered⟩ := answer
  rw [safe_pure]
  dsimp only
  split_ifs
  · trivial
  · rw [safe_bind]
    have hnetwork : safe (configuring site jobs) P i (fun _ _ _ => True) (fun _ _ _ => True)
        (applying ovn ([], none) (syncOVN name config)) l w := by
      unfold applying
      split_ifs
      · exact safe_syncOVN hkept hsuits hjob hw
      · trivial
    refine safe_mono (fun network l w _ => ?_) (fun _ _ _ _ => trivial) hnetwork
    rw [safe_bind]
    exact (maintains_syncLVM hsuits).safe trivial (fun _ _ _ _ => trivial) fun _ _ _ _ => trivial

/-! ### Setups -/

theorem safe_setupOVN (hkept : Kept P) (hsuits : Suits site jobs P)
    (hw : Knows i server state w) :
    safe (configuring site jobs) P i
      (fun config _ w => (∀ e ∈ config, e.1 ∈ globalKeys) ∧ ∃ state, Knows i server state w)
      (fun _ _ _ => True) (setupOVN systems) l w := by
  have hmembers : ∀ state, Maintains (configuring site jobs) P i (Knows i server state)
      (systems.forM fun name => setMemberConfig name keyOVSConnection ovsConnection) := by
    intro state
    induction systems with
    | nil => exact .pure _
    | cons name systems ih => exact .bind (maintains_setMemberConfig hkept hsuits) fun _ => ih
  unfold setupOVN
  rw [safe_bind]
  refine (maintains_fair hkept hsuits (c := .centrals) rfl fun _ _ =>
    trivial).safe hw (fun conns l w hw => ?_)
    fun _ _ _ _ => trivial
  rw [safe_bind]
  refine safe_mono (fun state l w hw => ?_) (fun _ _ _ _ => trivial) (safe_readOVN hkept hsuits hw)
  rw [safe_bind]
  refine (hmembers state).safe hw (fun _ l w hw => ⟨fun e he => ?_, state, hw⟩) fun _ _ _ _ => trivial
  have hkey : e.1 ∈ (OVNState.globalConfig { state with northbound := conns }).map (·.1) :=
    mem_map_of_mem he
  exact hkey

theorem safe_setupLVM (hw : Knows i server state w) :
    safe (configuring site jobs) P i
      (fun config _ w => (∀ e ∈ config, e.1 = keyLVMHostIDs ∧ ∃ existing ids,
        parseHostIDs (server.value keyLVMHostIDs) = .ok existing ∧ assignHostIDs existing systems = .ok ids ∧
          e.2 = formatHostIDs ids) ∧ Knows i server state w)
      (fun _ _ _ => True) (setupLVM systems server) l w := by
  unfold setupLVM
  cases hparse : parseHostIDs (server.value keyLVMHostIDs) with
  | error e => trivial
  | ok existing =>
    cases hassign : assignHostIDs existing systems with
    | error e =>
      dsimp only
      rw [hassign]
      trivial
    | ok ids =>
      dsimp only
      rw [hassign]
      refine ⟨fun e he => ?_, hw⟩
      rw [mem_singleton.mp he]
      exact ⟨rfl, existing, ids, rfl, hassign, rfl⟩

theorem safe_setupConfig {lvmCluster : Bool} (hkept : Kept P)
    (hsuits : Suits site jobs P) (hjob : jobs i = .setup m systems ovn lvmCluster) :
    safe (configuring site jobs) P i (fun _ _ _ => True) (fun _ _ _ => True)
      (setupConfig systems ovn lvmCluster) l w := by
  unfold setupConfig
  rw [safe_bind]
  have hknown : Knows i (w.read i) (w.found i) w := ⟨rfl, rfl⟩
  refine safe_mono (fun answer l' w' hw => ?_) (fun _ _ _ _ => trivial)
    (safe_getServer hkept hsuits hknown)
  obtain ⟨server, clustered⟩ := answer
  rw [safe_bind]
  have hnetwork : safe (configuring site jobs) P i
      (fun config _ w => (∀ e ∈ config, e.1 ∈ globalKeys) ∧ ∃ state, Knows i server state w)
      (fun _ _ _ => True) (applying ovn [] (setupOVN systems)) l' w' := by
    unfold applying
    split_ifs
    · exact safe_setupOVN hkept hsuits hw
    · exact ⟨fun _ he => (nomatch he), _, hw⟩
  refine safe_mono (fun network l w hnetwork => ?_) (fun _ _ _ _ => trivial) hnetwork
  obtain ⟨hglobal, state, hw⟩ := hnetwork
  rw [safe_bind]
  have hlocking : safe (configuring site jobs) P i
      (fun config _ w => (∀ e ∈ config, e.1 = keyLVMHostIDs ∧ ∃ existing ids,
        parseHostIDs (server.value keyLVMHostIDs) = .ok existing ∧ assignHostIDs existing systems = .ok ids ∧
          e.2 = formatHostIDs ids) ∧ Knows i server state w)
      (fun _ _ _ => True) (applying lvmCluster [] (setupLVM systems server)) l w := by
    unfold applying
    split_ifs
    · exact safe_setupLVM hw
    · exact ⟨fun _ he => (nomatch he), hw⟩
  refine safe_mono (fun locking l w hlocking => ?_) (fun _ _ _ _ => trivial) hlocking
  obtain ⟨hids, hw⟩ := hlocking
  rw [safe_when]
  split_ifs
  · refine (maintains_fair hkept hsuits (c := .updateServer (server.setAll _)) rfl fun w hw => ?_).safe hw
      (fun _ _ _ _ => trivial) fun _ _ _ _ => trivial
    show (jobs i).writes (w.read i) (w.found i) _
    rw [hjob, hw.1]
    refine ⟨Config.setAll network locking, rfl, fun e he => ?_⟩
    rcases Config.mem_setAll he with he | he
    · exact .inl (hglobal e he)
    · exact .inr (hids e he)

theorem safe_prog (hkept : Kept P) (hsuits : Suits site jobs P) :
    ((jobs i).prog l).safe (configuring site jobs) P i (fun _ _ => True) w := by
  cases hjob : jobs i with
  | sync m ceph ovn =>
    have hsync : safe (configuring site jobs) P i (fun _ _ _ => True) (fun _ _ _ => True)
        (syncAll m ceph ovn >>= fun _ => pure ()) l w := by
      rw [safe_bind]
      exact safe_syncAll hkept hsuits hjob
    exact Prog.safe_mono (fun _ _ _ => trivial) hsync
  | setup m systems ovn lvmCluster =>
    exact Prog.safe_mono (fun _ _ _ => trivial) (safe_setupConfig hkept hsuits hjob)

end Programs

/-! ### A fresh server -/

def oneSocket : Servers where
  isLocal k := k = keyOVSConnection
  isLocal_ovs := by decide
  isLocal_ovn := by decide

def freshServer (ι : Type) (own : Config) : ConfigWorld ι where
  cluster := []
  member _ := own
  given _ k := own.value k
  cleared := []
  read _ := []
  found _ := ⟨"", "", "", ""⟩

end IncusCloud.Firecloud
