import IncusCloud.Firecloud.Proofs.Sync

/-!
# Host ids are read back and kept, and lvmlockd is turned on

What `FormatHostIDs` writes `ParseHostIDs` reads, as long as no member's name has a separator or
begins with white space; and `AssignHostIDs` only ever adds ids that are new. `EnableLvmlockd`
writes one line, and the next time it finds that line and writes it again; whether the setting takes
is up to the lines before it: `LockdEnabled` trusts the first one with the key, and the writer's
expression passes over some that have it.
-/

open List Option
open Except (ok.inj)

namespace IncusCloud.Firecloud

open Lib

variable {ids out : HostIDs} {members : List String} {name : String}

/-! ### Ids that can be recorded -/

structure Plain (name : String) : Prop where
  comma : ',' ∉ name.toList
  equals : '=' ∉ name.toList
  space : ∀ c ∈ name.toList.head?, isSpace c = false

/-- Each member has one id of its own, and its name survives the text. -/
structure Recorded (ids : HostIDs) : Prop where
  names : (ids.map (·.1)).Nodup
  distinct : (ids.map (·.2)).Nodup
  range : ∀ e ∈ ids, 1 ≤ e.2 ∧ e.2 ≤ maxHostID
  plain : ∀ e ∈ ids, Plain e.1

theorem Recorded.perm {ids' : HostIDs} (h : Recorded ids) (hperm : ids'.Perm ids) : Recorded ids' :=
  ⟨(hperm.map _).nodup_iff.mpr h.names, (hperm.map _).nodup_iff.mpr h.distinct,
    fun e he => h.range e (hperm.mem_iff.mp he), fun e he => h.plain e (hperm.mem_iff.mp he)⟩

/-! ### Reading back -/

theorem isSpace_of_isDigit {c : Char} (hc : c.isDigit = true) : isSpace c = false := by
  have hrange : 48 ≤ c.toNat ∧ c.toNat ≤ 57 := by
    simpa [Char.isDigit, UInt32.le_iff_toNat_le] using hc
  simp only [isSpace, contains_eq_mem, mem_cons, not_mem_nil, or_false,
    Bool.or_eq_false_iff, decide_eq_false_iff_not, Bool.and_eq_false_iff]
  omega

theorem atoi_digits {s : List Char} (hs : s ≠ []) (hall : ∀ c ∈ s, c.isDigit = true) :
    atoi s = some (decimal s : ℤ) := by
  cases s with
  | nil => exact absurd rfl hs
  | cons d ds =>
    have hd : d.isDigit = true := hall d mem_cons_self
    have hminus : d ≠ '-' := fun h => absurd hd (by rw [h]; decide)
    have hplus : d ≠ '+' := fun h => absurd hd (by rw [h]; decide)
    unfold atoi
    split
    · exact absurd (List.cons.inj ‹_›).1 hminus
    · exact absurd (List.cons.inj ‹_›).1 hplus
    · rw [if_pos ⟨hs, all_eq_true.mpr hall⟩, List.head?_cons,
        if_neg fun h => hminus (some.inj h)]

theorem trimSpace_eq {s : List Char} (hhead : ∀ c ∈ s.head?, isSpace c = false)
    (hlast : ∀ c ∈ s.reverse.head?, isSpace c = false) : trimSpace s = s := by
  have hkeep : ∀ l : List Char, (∀ c ∈ l.head?, isSpace c = false) → l.dropWhile isSpace = l := by
    intro l hl
    cases l with
    | nil => rfl
    | cons c l => exact dropWhile_cons_of_neg (by simp [hl c rfl])
  unfold trimSpace
  rw [hkeep s hhead, hkeep _ hlast, reverse_reverse]

theorem toList_formatEntry (e : String × ℕ) :
    (formatEntry e).toList = e.1.toList ++ '=' :: Nat.toDigits 10 e.2 := by
  unfold formatEntry
  rw [String.toList_append, String.toList_append, Nat.toString_eq_ofList_toDigits, append_assoc]
  exact congrArg (fun l => e.1.toList ++ '=' :: l) String.toList_ofList

variable {e : String × ℕ}

theorem parseEntry_formatEntry {acc : HostIDs} (hplain : Plain e.1)
    (hrange : 1 ≤ e.2 ∧ e.2 ≤ maxHostID) : parseEntry acc (formatEntry e) = .ok (acc.set e.1 e.2) := by
  have hdigits : ∀ c ∈ Nat.toDigits 10 e.2, c.isDigit = true := fun c hc => isDigit_toDigits hc
  have htrim : trimSpace (formatEntry e).toList = e.1.toList ++ '=' :: Nat.toDigits 10 e.2 := by
    rw [toList_formatEntry]
    apply trimSpace_eq
    · intro c hc
      cases hname : e.1.toList with
      | nil =>
        rw [hname] at hc
        obtain rfl := some.inj hc
        rfl
      | cons d ds =>
        rw [hname] at hc
        exact hplain.space c (by rw [hname]; exact hc)
    · intro c hc
      -- The last character is a digit.
      have hmem : c ∈ (Nat.toDigits 10 e.2).reverse := by
        rw [reverse_append, reverse_cons, append_assoc] at hc
        rw [List.head?_append_of_ne_nil _ (by simp [Nat.toDigits_ne_nil])] at hc
        exact mem_of_mem_head? hc
      exact isSpace_of_isDigit (hdigits c (mem_reverse.mp hmem))
  have hcut : cut '=' (e.1.toList ++ '=' :: Nat.toDigits 10 e.2) =
      (e.1.toList, some (Nat.toDigits 10 e.2)) := cut_append hplain.equals _
  have hid : ¬ ((e.2 : ℤ) < 1 ∨ (maxHostID : ℤ) < e.2) := by omega
  unfold parseEntry
  rw [htrim, if_neg (by simp), hcut]
  dsimp only
  rw [atoi_digits Nat.toDigits_ne_nil hdigits, decimal_toDigits]
  dsimp only
  rw [if_neg hid, String.ofList_toList]
  rfl

theorem foldlM_parseEntry (acc : HostIDs) {es : HostIDs} (hnames : ((acc ++ es).map (·.1)).Nodup)
    (hes : Recorded es) : (es.map formatEntry).foldlM parseEntry acc = .ok (acc ++ es) := by
  induction es generalizing acc with
  | nil => simp [pure, Except.pure]
  | cons e es ih =>
    have hfresh : e.1 ∉ acc.map (·.1) := by
      rw [map_append, map_cons] at hnames
      exact fun hmem => (disjoint_of_nodup_append hnames) hmem mem_cons_self
    have hset : acc.set e.1 e.2 = acc ++ [e] := OrdMap.set_of_not_mem hfresh e.2
    have hrest : Recorded es := ⟨(nodup_cons.mp hes.names).2, (nodup_cons.mp hes.distinct).2,
      fun e' he' => hes.range e' (mem_cons_of_mem _ he'),
      fun e' he' => hes.plain e' (mem_cons_of_mem _ he')⟩
    rw [map_cons, foldlM_cons,
      parseEntry_formatEntry (hes.plain e mem_cons_self) (hes.range e mem_cons_self), hset]
    have hnext := ih (acc ++ [e]) (by rw [append_assoc]; exact hnames) hrest
    rw [append_assoc] at hnext
    exact hnext

theorem not_comma_formatEntry (hplain : Plain e.1) : ',' ∉ (formatEntry e).toList := by
  rw [toList_formatEntry]
  intro hmem
  rcases mem_append.mp hmem with hmem | hmem
  · exact hplain.comma hmem
  · rcases mem_cons.mp hmem with heq | hmem
    · exact absurd heq (by decide)
    · exact absurd (isDigit_toDigits hmem) (by decide)

theorem parse_format (h : Recorded ids) :
    parseHostIDs (formatHostIDs ids) = .ok (ids.insertionSort fun a b => a.2 ≤ b.2) := by
  have hsorted : Recorded (ids.insertionSort fun a b => a.2 ≤ b.2) := h.perm (perm_insertionSort _ _)
  unfold parseHostIDs formatHostIDs
  generalize ids.insertionSort (fun a b => a.2 ≤ b.2) = es at hsorted
  cases es with
  | nil => rfl
  | cons e es =>
    rw [split_join ',' (by simp) ?_]
    · exact foldlM_parseEntry [] hsorted.names hsorted
    · intro x hx
      obtain ⟨e', he', rfl⟩ := List.mem_map.mp hx
      exact not_comma_formatEntry (hsorted.plain e' he')

/-! ### New ids -/

structure Upto (s : HostIDs × ℕ) : Prop where
  recorded : Recorded s.1
  highest : ∀ e ∈ s.1, e.2 ≤ s.2

theorem assignNext_spec {s t : HostIDs × ℕ} (hs : Upto s) (hname : Plain name)
    (h : assignNext s name = .ok t) : Upto t ∧ s.1 <+: t.1 := by
  unfold assignNext at h
  split_ifs at h with hthere hfull
  · obtain rfl := ok.inj h
    exact ⟨hs, prefix_rfl⟩
  · obtain rfl := ok.inj h
    have hfresh : name ∉ s.1.map (·.1) := fun hmem => hthere ((OrdMap.isSome_get _ _).mpr hmem)
    have hnew : ∀ n ∈ s.1.map (·.2), n ≠ s.2 + 1 := by
      intro n hn
      obtain ⟨e, he, rfl⟩ := List.mem_map.mp hn
      have hle := hs.highest e he
      omega
    rw [OrdMap.set_of_not_mem hfresh]
    refine ⟨⟨⟨?_, ?_, fun e he => ?_, fun e he => ?_⟩, fun e he => ?_⟩, prefix_append _ _⟩
    · rw [map_append, nodup_append]
      refine ⟨hs.recorded.names, nodup_singleton _, fun n hn n' hn' heq => hfresh ?_⟩
      have hsame : n = name := heq.trans (mem_singleton.mp hn')
      exact hsame ▸ hn
    · rw [map_append, nodup_append]
      refine ⟨hs.recorded.distinct, nodup_singleton _, fun n hn n' hn' => ?_⟩
      rw [mem_singleton.mp hn']
      exact hnew n hn
    · rcases mem_append.mp he with he | he
      · exact hs.recorded.range e he
      · rw [mem_singleton.mp he]
        show 1 ≤ s.2 + 1 ∧ s.2 + 1 ≤ maxHostID
        omega
    · rcases mem_append.mp he with he | he
      · exact hs.recorded.plain e he
      · rw [mem_singleton.mp he]
        exact hname
    · rcases mem_append.mp he with he | he
      · exact (hs.highest e he).trans (Nat.le_succ _)
      · rw [mem_singleton.mp he]

theorem foldlM_assignNext {s t : HostIDs × ℕ} (hs : Upto s) (hmembers : ∀ m ∈ members, Plain m)
    (h : members.foldlM assignNext s = .ok t) : Upto t ∧ s.1 <+: t.1 := by
  induction members generalizing s with
  | nil =>
    obtain rfl := ok.inj h
    exact ⟨hs, prefix_rfl⟩
  | cons m members ih =>
    rw [foldlM_cons] at h
    cases hm : assignNext s m with
    | error e =>
      rw [hm] at h
      cases h
    | ok u =>
      rw [hm] at h
      obtain ⟨hu, hfirst⟩ := assignNext_spec hs (hmembers m mem_cons_self) hm
      obtain ⟨ht, hrest⟩ := ih hu (fun m' hm' => hmembers m' (mem_cons_of_mem _ hm')) h
      exact ⟨ht, hfirst.trans hrest⟩

theorem assignHostIDs_spec (hids : Recorded ids) (hmembers : ∀ m ∈ members, Plain m)
    (h : assignHostIDs ids members = .ok out) : Recorded out ∧ ids <+: out := by
  unfold assignHostIDs at h
  have hhighest : ∀ (l : HostIDs) (n : ℕ), n ≤ l.foldl (fun highest e => max highest e.2) n ∧
      ∀ e ∈ l, e.2 ≤ l.foldl (fun highest e => max highest e.2) n := by
    intro l
    induction l with
    | nil => exact fun n => ⟨le_refl _, fun _ he => (nomatch he)⟩
    | cons e l ih =>
      intro n
      obtain ⟨hbase, hall⟩ := ih (max n e.2)
      refine ⟨(le_max_left _ _).trans hbase, fun e' he' => ?_⟩
      rcases mem_cons.mp he' with rfl | he'
      · exact (le_max_right _ _).trans hbase
      · exact hall e' he'
  cases ht : (members.insertionSort (· ≤ ·)).foldlM assignNext
      (ids, ids.foldl (fun highest e => max highest e.2) 0) with
  | error e =>
    rw [ht] at h
    cases h
  | ok t =>
    rw [ht] at h
    obtain rfl := ok.inj h
    have hsorted : ∀ m ∈ members.insertionSort (· ≤ ·), Plain m :=
      fun m hm => hmembers m ((perm_insertionSort _ _).mem_iff.mp hm)
    obtain ⟨hupto, hkept⟩ := foldlM_assignNext ⟨hids, (hhighest ids 0).2⟩ hsorted ht
    exact ⟨hupto.recorded, hkept⟩

/-!
### Host ids never clash, change or come back

Setups and syncs write back the whole configuration that they read. As long as the host ids are
then still those that they read, every write keeps them: an id that was recorded stays its member's.
-/

variable {ι : Type} {site : Servers} {jobs : ι → ConfigJob} {w w' : ConfigWorld ι}
  {ids ids' : HostIDs} {m k : String} {put : Config}

/-! ### What is recorded -/

def ConfigWorld.hostIDs (w : ConfigWorld ι) : String := w.cluster.value keyLVMHostIDs

structure Records (w : ConfigWorld ι) (ids : HostIDs) : Prop where
  recorded : Recorded ids
  value : w.hostIDs = formatHostIDs ids

/-- The ids of the later text are distinct and possible, and those of the earlier one are in it, for
the same members. -/
def StayTheirs (before after : String) : Prop :=
  ∃ ids ids', parseHostIDs before = .ok ids ∧ parseHostIDs after = .ok ids' ∧
    (ids'.map (·.2)).Nodup ∧ (∀ e ∈ ids', 1 ≤ e.2 ∧ e.2 ≤ maxHostID) ∧
      ∀ m n, ids.get m = some n → ids'.get m = some n ∧ ∀ m', ids'.get m' = some n → m' = m

def IdsKept (w w' : ConfigWorld ι) : Prop := ∀ ids, Records w ids → ∃ ids', Records w' ids' ∧ ids ⊆ ids'

theorem IdsKept.of_eq (h : w'.hostIDs = w.hostIDs) : IdsKept w w' :=
  fun ids hids => ⟨ids, ⟨hids.recorded, h.trans hids.value⟩, fun _ he => he⟩

theorem Records.mem_iff (h : Records w ids) (h' : Records w ids') : e ∈ ids ↔ e ∈ ids' := by
  have hsame : (.ok (ids.insertionSort fun a b => a.2 ≤ b.2) : Except HostIDError HostIDs) =
      .ok (ids'.insertionSort fun a b => a.2 ≤ b.2) := by
    rw [← parse_format h.recorded, ← parse_format h'.recorded, ← h.value, ← h'.value]
  have hsorted := ok.inj hsame
  rw [← (perm_insertionSort (fun a b : String × ℕ => a.2 ≤ b.2) ids).mem_iff, hsorted]
  exact (perm_insertionSort _ ids').mem_iff

theorem hostIDs_view (site : Servers) (w : ConfigWorld ι) (m : String) :
    (w.view site m).value keyLVMHostIDs = w.hostIDs := by
  rw [ConfigWorld.value_view, site.isLocal_ovn keyLVMHostIDs (by simp)]
  rfl

theorem hostIDs_update (job : ConfigJob) :
    (w.update site job m put).hostIDs = put.value keyLVMHostIDs := by
  have hview := ConfigWorld.value_replace site w m put m keyLVMHostIDs
  rw [if_neg fun h => h.2 rfl, ← ConfigWorld.view_update job, hostIDs_view] at hview
  exact hview

/-! ### Writes -/

def idsCurrent (site : Servers) (jobs : ι → ConfigJob) (i : ι) (c : ConfigCall) (w : ConfigWorld ι) : Prop :=
  match c with
  | .updateServer _ =>
    (w.view site (jobs i).home).value keyLVMHostIDs = (w.read i).value keyLVMHostIDs
  | _ => True

instance (site : Servers) (jobs : ι → ConfigJob) (i : ι) (c : ConfigCall) (w : ConfigWorld ι) :
    Decidable (idsCurrent site jobs i c w) := by
  unfold idsCurrent
  split <;> infer_instance

def leavesIds (site : Servers) (a : ConfigAct) (w : ConfigWorld ι) : Prop :=
  a.put.value keyLVMHostIDs = (w.view site a.member).value keyLVMHostIDs

instance (site : Servers) (a : ConfigAct) (w : ConfigWorld ι) : Decidable (leavesIds site a w) :=
  inferInstanceAs (Decidable (_ = _))

def ConfigJob.systems : ConfigJob → List String
  | sync _ _ _ => []
  | setup _ systems _ _ => systems

theorem not_mem_globalKeys : keyLVMHostIDs ∉ globalKeys := by decide

theorem writes_hostIDs {job : ConfigJob} {server : Config} {state : OVNState}
    (hnames : ∀ m ∈ job.systems, Plain m) (hids : Recorded ids)
    (hvalue : server.value keyLVMHostIDs = formatHostIDs ids) (h : job.writes server state put) :
    ∃ ids', Recorded ids' ∧ put.value keyLVMHostIDs = formatHostIDs ids' ∧ ids ⊆ ids' := by
  have hsame : put.value keyLVMHostIDs = server.value keyLVMHostIDs →
      ∃ ids', Recorded ids' ∧ put.value keyLVMHostIDs = formatHostIDs ids' ∧ ids ⊆ ids' :=
    fun hput => ⟨ids, hids, hput.trans hvalue, fun _ he => he⟩
  cases job with
  | sync m ceph ovn =>
    obtain rfl : put = server.setAll (changes server state.globalConfig) := h
    rcases Config.value_setAll server (changes server state.globalConfig) keyLVMHostIDs with
      ⟨e, he, hkey, -⟩ | ⟨-, hput⟩
    · have hglobal : e.1 ∈ globalKeys := mem_map_of_mem (f := (·.1)) (mem_filter.mp he).1
      rw [hkey] at hglobal
      exact absurd hglobal not_mem_globalKeys
    · exact hsame hput
  | setup m systems ovn lvmCluster =>
    obtain ⟨config, rfl, hconfig⟩ := h
    rcases Config.value_setAll server config keyLVMHostIDs with ⟨e, he, hkey, hput⟩ | ⟨-, hput⟩
    · rcases hconfig e he with hglobal | ⟨-, existing, new, hparse, hassign, hnew⟩
      · rw [hkey] at hglobal
        exact absurd hglobal not_mem_globalKeys
      · -- The ids are read back, and new ones are added.
        rw [hvalue, parse_format hids] at hparse
        obtain rfl := ok.inj hparse
        have hperm : (ids.insertionSort fun a b => a.2 ≤ b.2).Perm ids := perm_insertionSort _ _
        obtain ⟨hrecorded, hkept⟩ := assignHostIDs_spec (hids.perm hperm) hnames hassign
        exact ⟨new, hrecorded, hput.trans hnew, fun e he => hkept.subset (hperm.mem_iff.mpr he)⟩
    · exact hsame hput

/-! ### Runs -/

def keepingIds (site : Servers) (jobs : ι → ConfigJob) : Protocol ι ConfigCall (ConfigWorld ι) ConfigAct where
  ok := idsCurrent site jobs
  okOutside := leavesIds site
  inv w := ∃ ids, Records w ids
  rely i w w' := w'.read i = w.read i ∧ w'.found i = w.found i
  guar i w w' := IdsKept w w' ∧ ∀ j, j ≠ i → w'.read j = w.read j ∧ w'.found j = w.found j

theorem hostIDs_outside {a : ConfigAct} (hok : leavesIds site a w) :
    (w.gave site a.member a.put).hostIDs = w.hostIDs := by
  have hput : (w.gave site a.member a.put).hostIDs = a.put.value keyLVMHostIDs :=
    hostIDs_update (w := w) (m := a.member) (.setup "" [] false false)
  rw [hput, hok, hostIDs_view]

variable [DecidableEq ι]

theorem compatible_keepingIds : Team.Compatible (configuring site jobs) (keepingIds site jobs) := by
  constructor
  · exact fun i j w w' hij _ _ hguar => hguar.2 j (Ne.symm hij)
  · intro a w w' hinv hok hw'
    obtain rfl := some.inj hw'
    obtain ⟨ids, hids⟩ := hinv
    refine ⟨⟨ids, hids.recorded, ?_⟩, fun _ => ⟨rfl, rfl⟩⟩
    rw [hostIDs_outside hok]
    exact hids.value

theorem suits_keepingIds (hnames : ∀ i, ∀ m ∈ (jobs i).systems, Plain m) :
    Suits site jobs (keepingIds site jobs) := by
  intro i w c o hinv hok hfair
  obtain ⟨ids, hids⟩ : ∃ ids, Records w ids := hinv
  have hboth : ∀ w', (∀ j, j ≠ i → w'.read j = w.read j ∧ w'.found j = w.found j) →
      (∃ ids', Recorded ids' ∧ w'.hostIDs = formatHostIDs ids' ∧ ids ⊆ ids') →
      (∃ ids', Records w' ids') ∧ IdsKept w w' ∧
        ∀ j, j ≠ i → w'.read j = w.read j ∧ w'.found j = w.found j := by
    rintro w' hothers ⟨ids', hrecorded, hvalue, hkept⟩
    refine ⟨⟨ids', hrecorded, hvalue⟩, fun ids₀ hids₀ => ⟨ids', ⟨hrecorded, hvalue⟩, fun e he => ?_⟩, hothers⟩
    exact hkept ((hids₀.mem_iff hids).mp he)
  have hupdate : ∀ m put, ∀ j, j ≠ i →
      (w.update site (jobs i) m put).read j = w.read j ∧ (w.update site (jobs i) m put).found j = w.found j := by
    intro m put j _
    rw [ConfigWorld.read_update, ConfigWorld.found_update]
    exact ⟨rfl, rfl⟩
  rcases configAnswer_cases site jobs i c w o with ⟨read, found, hw, -, hothers⟩ |
    ⟨m, put, etag, rfl, hetag, hw⟩ | ⟨put, rfl, hw⟩
  · rw [hw]
    exact hboth _ hothers ⟨ids, hids.recorded, hids.value, fun _ he => he⟩
  · rw [hw]
    obtain rfl : put = OrdMap.set etag keyOVSConnection ovsConnection := hfair
    refine hboth _ (hupdate m _) ⟨ids, hids.recorded, ?_, fun _ he => he⟩
    have hne : ¬ keyLVMHostIDs = keyOVSConnection := by decide
    rw [hostIDs_update, Config.value_set, if_neg hne, ← Config.same_iff.mp hetag, hostIDs_view]
    exact hids.value
  · rw [hw]
    replace hok : (w.view site (jobs i).home).value keyLVMHostIDs = (w.read i).value keyLVMHostIDs := hok
    rw [hostIDs_view] at hok
    have hwrites := writes_hostIDs (hnames i) hids.recorded (hok.symm.trans hids.value) hfair
    refine hboth _ (hupdate _ put) ?_
    rw [hostIDs_update]
    exact hwrites

section

variable {start : ConfigWorld ι}
  {s t : Procs ι ConfigCall ConfigCall.Answer String (ConfigWorld ι) (Except String Unit × Unit)}

theorem sound_configuring (site : Servers) (hnames : ∀ i, ∀ m ∈ (jobs i).systems, Plain m)
    (hstart : start.hostIDs = "") :
    Team.Sound (configuring site jobs) (keepingIds site jobs) (fun _ _ _ => True)
      (allConfiguring jobs start) := by
  refine ⟨⟨[], ⟨nodup_nil, nodup_nil, fun _ he => (nomatch he), fun _ he => (nomatch he)⟩, hstart⟩,
    fun i => ?_⟩
  exact safe_prog (P := keepingIds site jobs) (fun _ _ _ hrely => hrely) (suits_keepingIds hnames)

theorem idsKept_of_run
    (hsound : Team.Sound (configuring site jobs) (keepingIds site jobs) (fun _ _ _ => True) s)
    (ht : Run (configuring site jobs).step (okStep (idsCurrent site jobs) (leavesIds site)) s t) :
    Team.Sound (configuring site jobs) (keepingIds site jobs) (fun _ _ _ => True) t ∧
      IdsKept s.world t.world := by
  refine ht.invariant (I := fun u => Team.Sound (configuring site jobs) (keepingIds site jobs)
    (fun _ _ _ => True) u ∧ IdsKept s.world u.world) ⟨hsound, .of_eq rfl⟩ fun u a v hu hok hv => ?_
  obtain ⟨hu, hkept⟩ := hu
  have hstep : Team.Sound (configuring site jobs) (keepingIds site jobs) (fun _ _ _ => True) v ∧
      IdsKept u.world v.world := by
    cases a with
    | call i o =>
      obtain ⟨hv', hguar⟩ := hu.call compatible_keepingIds (fun _ _ _ _ _ _ => trivial) hok hv
      exact ⟨hv', hguar.1⟩
    | outside a =>
      refine ⟨hu.outside compatible_keepingIds (fun _ _ _ _ _ _ => trivial) hok hv, .of_eq ?_⟩
      have hworld : some { u with world := u.world.gave site a.member a.put } = some v := hv
      obtain rfl := some.inj hworld
      exact hostIDs_outside hok
  refine ⟨hstep.1, fun ids hids => ?_⟩
  obtain ⟨ids', hids', hsub⟩ := hkept ids hids
  obtain ⟨ids'', hids'', hsub'⟩ := hstep.2 ids' hids'
  exact ⟨ids'', hids'', fun e he => hsub' (hsub he)⟩

/-- However setups and syncs overlap, with other clients that leave the host ids alone: if, wherever
a process writes back the configuration that it read, the host ids are as it read them, then the ids
recorded in a later state are distinct and between 1 and 2000, and an id recorded for a member is
that member's then, and no other's. -/
theorem host_ids_stay (hnames : ∀ i, ∀ m ∈ (jobs i).systems, Plain m) (hstart : start.hostIDs = "")
    (hs : Run (configuring site jobs).step (okStep (idsCurrent site jobs) (leavesIds site))
      (allConfiguring jobs start) s)
    (ht : Run (configuring site jobs).step (okStep (idsCurrent site jobs) (leavesIds site)) s t) :
    StayTheirs s.world.hostIDs t.world.hostIDs := by
  have hstarts := sound_configuring site hnames hstart
  have hsound := (idsKept_of_run hstarts hs).1
  obtain ⟨hsound', hkept⟩ := idsKept_of_run hsound ht
  obtain ⟨ids, hids⟩ : ∃ ids, Records s.world ids := hsound.inv
  obtain ⟨ids', hids', hsub⟩ := hkept ids hids
  have hperm : (ids.insertionSort fun a b => a.2 ≤ b.2).Perm ids := perm_insertionSort _ _
  have hperm' : (ids'.insertionSort fun a b => a.2 ≤ b.2).Perm ids' := perm_insertionSort _ _
  have hsorted := hids'.recorded.perm hperm'
  refine ⟨_, _, by rw [hids.value]; exact parse_format hids.recorded,
    by rw [hids'.value]; exact parse_format hids'.recorded, hsorted.distinct, hsorted.range,
    fun m n hm => ?_⟩
  have hmem : (m, n) ∈ ids' := hsub (hperm.mem_iff.mp (OrdMap.mem_of_get hm))
  have hmem' := hperm'.mem_iff.mpr hmem
  refine ⟨OrdMap.get_of_mem hsorted.names hmem', fun m' hm' => ?_⟩
  have hother := OrdMap.mem_of_get hm'
  exact congrArg Prod.fst (inj_on_of_nodup_map hsorted.distinct hother hmem' rfl)

end

/-! ### Two setups -/

def twoSetups : Bool → ConfigJob
  | false => .setup "m1" ["m1", "m2"] false true
  | true => .setup "m1" ["m1", "m3"] false true

theorem plain_twoSetups : ∀ i, ∀ m ∈ (twoSetups i).systems, Plain m := by
  have hplain : Plain "m1" ∧ Plain "m2" ∧ Plain "m3" := by
    refine ⟨⟨by decide, by decide, ?_⟩, ⟨by decide, by decide, ?_⟩, ⟨by decide, by decide, ?_⟩⟩
    all_goals
      intro c hc
      obtain rfl : 'm' = c := some.inj hc
      rfl
  intro i m hm
  cases i with
  | false =>
    rcases mem_pair.mp hm with rfl | rfl
    · exact hplain.1
    · exact hplain.2.1
  | true =>
    rcases mem_pair.mp hm with rfl | rfl
    · exact hplain.1
    · exact hplain.2.2

/-- One after the other, the second gives its new member the next id. -/
theorem two_setups_in_turn : StayTheirs "m1=1,m2=2" "m1=1,m2=2,m3=3" := by
  have hrun : ∃ s, Run (configuring oneSocket twoSetups).step
      (okStep (idsCurrent oneSocket twoSetups) (leavesIds oneSocket))
      (allConfiguring twoSetups (freshServer Bool [])) s ∧ s.world.hostIDs = "m1=1,m2=2" ∧
      (Run.exec (configuring oneSocket twoSetups).step
        (okStep (idsCurrent oneSocket twoSetups) (leavesIds oneSocket)) s
        [.call true {}, .call true {}]).any (fun t => t.world.hostIDs = "m1=1,m2=2,m3=3") = true := by
    apply Run.exists_of_exec [.call false {}, .call false {}]
    decide
  obtain ⟨s, hs, hfirst, hlater⟩ := hrun
  obtain ⟨t, ht, hsecond⟩ := Run.exists_of_exec _ hlater
  have hstay := host_ids_stay plain_twoSetups rfl hs ht
  rw [hfirst, hsecond] at hstay
  exact hstay

/-- Both read the configuration before either writes it back: the second gives the first one's id to
another member. -/
theorem two_setups_give_one_id : ∃ s t,
    Run (configuring oneSocket twoSetups).step (okStep (fun _ _ _ => True) fun _ _ => True)
      (allConfiguring twoSetups (freshServer Bool [])) s ∧
    Run (configuring oneSocket twoSetups).step (okStep (fun _ _ _ => True) fun _ _ => True) s t ∧
    s.world.hostIDs = "m1=1,m2=2" ∧ t.world.hostIDs = "m1=1,m3=2" ∧
    ¬ StayTheirs s.world.hostIDs t.world.hostIDs := by
  have hrun : ∃ s, Run (configuring oneSocket twoSetups).step (okStep (fun _ _ _ => True) fun _ _ => True)
      (allConfiguring twoSetups (freshServer Bool [])) s ∧ s.world.hostIDs = "m1=1,m2=2" ∧
      (Run.exec (configuring oneSocket twoSetups).step (okStep (fun _ _ _ => True) fun _ _ => True) s
        [.call true {}]).any (fun t => t.world.hostIDs = "m1=1,m3=2") = true := by
    apply Run.exists_of_exec [.call false {}, .call true {}, .call false {}]
    decide
  obtain ⟨s, hs, hfirst, hlater⟩ := hrun
  obtain ⟨t, ht, hsecond⟩ := Run.exists_of_exec _ hlater
  refine ⟨s, t, hs, ht, hfirst, hsecond, ?_⟩
  rw [hfirst, hsecond]
  rintro ⟨ids, ids', hids, hids', -, -, hstay⟩
  have hread : parseHostIDs "m1=1,m2=2" = .ok [("m1", 1), ("m2", 2)] := by decide
  have hread' : parseHostIDs "m1=1,m3=2" = .ok [("m1", 1), ("m3", 2)] := by decide
  obtain rfl := ok.inj (hids.symm.trans hread)
  obtain rfl := ok.inj (hids'.symm.trans hread')
  have hgone := (hstay "m2" 2 (by decide)).1
  exact absurd hgone (by decide)

/-! ### Lines -/

def AreLines (ls : List (List Char)) : Prop := ls ≠ [] ∧ ∀ l ∈ ls, '\n' ∉ l

theorem areLines_lines (content : List Char) : AreLines (lines content) :=
  ⟨splitOn_ne_nil _ _, fun _ hl => (mem_splitOn hl).1⟩

theorem lines_unlines {ls : List (List Char)} (h : AreLines ls) : lines (unlines ls) = ls :=
  splitOn_intercalate '\n' h.2 h.1

theorem newline_not_mem_lockdLine : '\n' ∉ lockdLine := by decide

theorem rmatch_lockdLine : useLvmlockdLine.rmatch lockdLine = true := by decide

theorem lockdSetting_lockdLine : lockdSetting lockdLine = some true := by decide

/-! ### The line that is written -/

theorem exists_of_findIdx? {α : Type*} {p : α → Bool} {l : List α} {n : ℕ} (h : l.findIdx? p = some n) :
    ∃ before x after, l = before ++ x :: after ∧ before.length = n ∧ p x = true ∧ ∀ y ∈ before, p y = false := by
  obtain ⟨hn, hx, hbefore⟩ := List.findIdx?_eq_some_iff_getElem.mp h
  refine ⟨l.take n, l[n], l.drop (n + 1), ?_, length_take_of_le hn.le, hx, fun y hy => ?_⟩
  · rw [cons_getElem_drop_succ, take_append_drop]
  · obtain ⟨i, hi, rfl⟩ := mem_iff_getElem.mp hy
    have hin : i < n := by
      rw [length_take] at hi
      omega
    rw [getElem_take]
    exact Bool.eq_false_of_not_eq_true (hbefore i hin)

theorem set_at_length {α : Type*} (before after : List α) (x a : α) :
    (before ++ x :: after).set before.length a = before ++ a :: after := by
  simp

theorem insertIdx_after {α : Type*} (before after : List α) (x a : α) :
    (before ++ x :: after).insertIdx (before.length + 1) a = before ++ x :: a :: after := by
  induction before with
  | nil => rfl
  | cons b before ih =>
    rw [cons_append, length_cons, insertIdx_succ_cons, ih, cons_append]

def writtenAt (content : List Char) : Option ℕ :=
  ((lines content).findIdx? useLvmlockdLine.rmatch).or
    (((lines content).findIdx? globalSection.rmatch).map (· + 1))

/-- The line is written between these lines, in the place of `old` if there is one. -/
structure Written (content out : List Char) (before after : List (List Char)) (old : Option (List Char)) : Prop where
  linesBefore : lines content = before ++ old.toList ++ after
  text : out = unlines (before ++ lockdLine :: after)
  linesAfter : lines out = before ++ lockdLine :: after
  unset : ∀ l ∈ before, useLvmlockdLine.rmatch l = false

variable {content out : List Char} {before after : List (List Char)} {old : Option (List Char)}

theorem Written.mk'
    (hcontent : lines content = before ++ old.toList ++ after)
    (hunset : ∀ l ∈ before, useLvmlockdLine.rmatch l = false) :
    Written content (unlines (before ++ lockdLine :: after)) before after old := by
  refine ⟨hcontent, rfl, lines_unlines ⟨by simp, fun l hl => ?_⟩, hunset⟩
  have hlines := (areLines_lines content).2
  rw [hcontent] at hlines
  rcases mem_append.mp hl with hl | hl
  · exact hlines l (mem_append_left _ (mem_append_left _ hl))
  · rcases mem_cons.mp hl with rfl | hl
    · exact newline_not_mem_lockdLine
    · exact hlines l (mem_append_right _ hl)

theorem written_of_enable (h : enableLvmlockd content = .ok out) :
    (∃ before after old, Written content out before after old ∧ writtenAt content = some before.length) ∨
      writtenAt content = none ∧ trimSpace content = [] ∧ out = newConf := by
  unfold enableLvmlockd at h
  cases huse : (lines content).findIdx? useLvmlockdLine.rmatch with
  | some n =>
    -- The setting is replaced.
    obtain ⟨before, x, after, hlines, rfl, -, hbefore⟩ := exists_of_findIdx? huse
    rw [huse, hlines] at h
    dsimp only at h
    rw [set_at_length] at h
    refine .inl ⟨before, after, some x, ?_, ?_⟩
    · rw [← ok.inj h]
      exact .mk' (by rw [hlines]; simp) hbefore
    · rw [writtenAt, huse]
      rfl
  | none =>
    cases hglobal : (lines content).findIdx? globalSection.rmatch with
    | some n =>
      -- One is added after the start of the section.
      obtain ⟨before, x, after, hlines, rfl, -, -⟩ := exists_of_findIdx? hglobal
      rw [huse, hglobal, hlines] at h
      dsimp only at h
      rw [insertIdx_after] at h
      have hunset := List.findIdx?_eq_none_iff.mp huse
      rw [hlines] at hunset
      refine .inl ⟨before ++ [x], after, none, ?_, ?_⟩
      · rw [← ok.inj h]
        have hsame : before ++ x :: lockdLine :: after = before ++ [x] ++ lockdLine :: after := by simp
        rw [hsame]
        refine .mk' (by rw [hlines]; simp) fun l hl => hunset l ?_
        rcases mem_append.mp hl with hl | hl
        · exact mem_append_left _ hl
        · exact mem_append_right _ (mem_singleton.mp hl ▸ mem_cons_self)
      · rw [writtenAt, huse, hglobal, length_append]
        rfl
    | none =>
      rw [huse, hglobal] at h
      split_ifs at h with hblank
      refine .inr ⟨?_, hblank, (ok.inj h).symm⟩
      rw [writtenAt, huse, hglobal]
      rfl

theorem Written.again
    (h : Written content out before after old) : enableLvmlockd out = .ok out := by
  have hfind : (before ++ lockdLine :: after).findIdx? useLvmlockdLine.rmatch = some before.length := by
    rw [List.findIdx?_append, List.findIdx?_eq_none_iff.mpr h.unset, List.findIdx?_cons, rmatch_lockdLine]
    simp
  unfold enableLvmlockd
  rw [h.linesAfter, hfind]
  dsimp only
  rw [set_at_length, ← h.text]

theorem Written.enabled_iff
    (h : Written content out before after old) :
    lockdEnabled out = true ↔ before.findSome? lockdSetting ≠ some false := by
  unfold lockdEnabled
  rw [h.linesAfter, List.findSome?_append, List.findSome?_cons, lockdSetting_lockdLine]
  cases before.findSome? lockdSetting with
  | none => simp
  | some on => cases on <;> simp

theorem enable_newConf : enableLvmlockd newConf = .ok newConf := by decide

theorem enabled_newConf : lockdEnabled newConf = true := by decide

/-! ### It takes, once -/

/-- The two differ in one line at most, replaced or inserted; or the one was blank and the other is
the new file. -/
def OneLine (content out : List Char) : Prop :=
  (∃ before after, ∃ old : Option (List Char), ∃ new,
    lines content = before ++ old.toList ++ after ∧ lines out = before ++ new :: after) ∨
    trimSpace content = [] ∧ out = newConf

/-- A line before the one that is written has the key, and the first of these does not turn it on. -/
def Overruled (content : List Char) : Prop :=
  ∃ n, writtenAt content = some n ∧ ((lines content).take n).findSome? lockdSetting = some false

/-- The setting takes, once, and changes nothing else, exactly where no line before it overrules it. -/
theorem enableLvmlockd_takes_iff (h : enableLvmlockd content = .ok out) :
    lockdEnabled out = true ∧ enableLvmlockd out = .ok out ∧ OneLine content out ↔ ¬ Overruled content := by
  rcases written_of_enable h with ⟨before, after, old, hw, hat⟩ | ⟨hat, hblank, rfl⟩
  · have htake : (lines content).take before.length = before := by
      rw [hw.linesBefore, append_assoc]
      exact take_left
    have hover : Overruled content ↔ before.findSome? lockdSetting = some false := by
      simp [Overruled, hat, htake]
    rw [hover, ← ne_eq, ← hw.enabled_iff]
    exact ⟨fun hyes => hyes.1, fun hyes => ⟨hyes, hw.again, .inl ⟨before, after, old, _, hw.linesBefore, hw.linesAfter⟩⟩⟩
  · refine iff_of_true ⟨enabled_newConf, enable_newConf, .inr ⟨hblank, rfl⟩⟩ ?_
    rintro ⟨n, hn, -⟩
    exact nomatch hat.symm.trans hn

def commentedConf : List Char := "global {
	# use_lvmlockd = 0
}
".toList

theorem enableLvmlockd_takes_iff_commented :
    lockdEnabled newConf = true ∧ enableLvmlockd newConf = .ok newConf ∧
      OneLine commentedConf newConf ↔ ¬ Overruled commentedConf :=
  enableLvmlockd_takes_iff (by decide)

/-- The setting has a comment after it, and is commented out below. -/
def annotatedConf : List Char := "global {
	use_lvmlockd = 0 # off
	# use_lvmlockd = 0
}
".toList

/-- It is turned on where it is commented out, which is not where it is looked for. -/
theorem enableLvmlockd_annotated :
    ∃ out, enableLvmlockd annotatedConf = .ok out ∧
      ¬ (lockdEnabled out = true ∧ enableLvmlockd out = .ok out ∧ OneLine annotatedConf out) := by
  refine ⟨"global {
	use_lvmlockd = 0 # off
	use_lvmlockd = 1
}
".toList, by decide, ?_⟩
  exact fun h => absurd h.1 (by decide)

end IncusCloud.Firecloud
