import IncusCloud.Agent.Proofs.Addresses
import IncusCloud.Agent.Proofs.Creates

/-!
# No two clusters share an address

The requests check the addresses that they reserve before they write them. If what was written
since a request began does not overlap with what it writes, then no address is recorded twice
(`addresses_apart`).
-/

namespace IncusCloud.Agent

open Lib Handler List Option

variable {ι : Type} [DecidableEq ι] {i : ι} {name : String} {w w' : AgentState ι} {l : RouteLocals}
  {r r' : ClusterRecord} {t t' : ClusterRepo}

/-! ### The addresses of a cluster -/

namespace ClusterRecord

variable (r : ClusterRecord)
  {taken texts : List String} {record : ClusterRecord} {body : CreateClusterBody}

def addresses : List String := (wantedMetalLB r).getD []

def hosts : List String := r.spec.endpointHost.toList

def uses : List String := r.addresses ++ r.hosts

def pool : Set ℕ := addressSet r.addresses

end ClusterRecord

/-- No address is used twice, in a pool or as an endpoint. -/
structure NoneShared (t : ClusterRepo) : Prop where
  valid : ∀ r ∈ t.rows, ∀ host, r.spec.endpointHost = some host → ∃ n < 2 ^ 32, host = intToIp n
  pools : ∀ r ∈ t.rows, ∀ r' ∈ t.rows, r.name ≠ r'.name → Disjoint r.pool r'.pool
  endpoints : ∀ r ∈ t.rows, ∀ r' ∈ t.rows, r.name ≠ r'.name → ∀ host,
    r.spec.endpointHost = some host →
    r'.spec.endpointHost ≠ some host
  inPool : ∀ r ∈ t.rows, ∀ r' ∈ t.rows, ∀ host, r.spec.endpointHost = some host → ∀ n,
    ipToInt host = some n → n ∉ r'.pool

structure Sane (r : ClusterRecord) : Prop where
  valid : ∀ host, r.spec.endpointHost = some host → ∃ n < 2 ^ 32, host = intToIp n
  own : Disjoint (addressSet r.addresses) (addressSet r.hosts)

/-- `NoneShared`, by the sets of addresses that the records use. -/
structure Apart (t : ClusterRepo) : Prop where
  sane : ∀ r ∈ t.rows, Sane r
  apart : ∀ r ∈ t.rows, ∀ r' ∈ t.rows, r.name ≠ r'.name → Disjoint (addressSet r.uses)
    (addressSet r'.uses)

theorem addressSet_uses (r : ClusterRecord) : addressSet r.uses = r.pool ∪ addressSet r.hosts :=
  addressSet_append _ _

theorem addressSet_nil : addressSet [] = ∅ := by
  unfold addressSet parseRanges
  simp

theorem addressSet_hosts {n : ℕ} (hn : n < 2 ^ 32) (h : r.spec.endpointHost = some (intToIp n)) :
    addressSet r.hosts = {n} := by
  unfold ClusterRecord.hosts
  rw [h]
  exact addressSet_intToIp hn

theorem mem_addressSet_hosts {n : ℕ}
    (hvalid : ∀ host, r.spec.endpointHost = some host → ∃ n < 2 ^ 32, host = intToIp n)
    (h : n ∈ addressSet r.hosts) : n < 2 ^ 32 ∧ r.spec.endpointHost = some (intToIp n) := by
  cases hhost : r.spec.endpointHost with
  | none =>
    have hnil : r.hosts = [] := by
      unfold ClusterRecord.hosts
      rw [hhost]
      rfl
    rw [hnil, addressSet_nil] at h
    exact h.elim
  | some host =>
    obtain ⟨k, hk, rfl⟩ := hvalid host hhost
    rw [addressSet_hosts hk hhost] at h
    obtain rfl := Set.mem_singleton_iff.mp h
    exact ⟨hk, rfl⟩

theorem noneShared_iff : NoneShared t ↔ Apart t := by
  constructor
  · intro h
    have hin : ∀ r ∈ t.rows, ∀ r' ∈ t.rows, Disjoint r.pool (addressSet r'.hosts) := by
      intro r hr r' hr'
      rw [Set.disjoint_left]
      intro n hn hn'
      obtain ⟨hlt, hhost⟩ := mem_addressSet_hosts (h.valid r' hr') hn'
      exact h.inPool r' hr' r hr _ hhost n (ipToInt_intToIp hlt) hn
    refine ⟨fun r hr => ⟨h.valid r hr, hin r hr r hr⟩, fun r hr r' hr' hne => ?_⟩
    rw [addressSet_uses, addressSet_uses, Set.disjoint_union_left, Set.disjoint_union_right,
      Set.disjoint_union_right]
    refine ⟨⟨h.pools r hr r' hr' hne, hin r hr r' hr'⟩, (hin r' hr' r hr).symm, ?_⟩
    rw [Set.disjoint_left]
    intro n hn hn'
    have hhost := (mem_addressSet_hosts (h.valid r hr) hn).2
    have hhost' := (mem_addressSet_hosts (h.valid r' hr') hn').2
    exact h.endpoints r hr r' hr' hne _ hhost hhost'
  · intro h
    have hsplit : ∀ r ∈ t.rows, ∀ r' ∈ t.rows, r.name ≠ r'.name → (Disjoint r.pool r'.pool ∧
        Disjoint r.pool (addressSet r'.hosts)) ∧ Disjoint (addressSet r.hosts) r'.pool ∧
          Disjoint (addressSet r.hosts) (addressSet r'.hosts) := by
      intro r hr r' hr' hne
      have hdisjoint := h.apart r hr r' hr' hne
      rwa [addressSet_uses, addressSet_uses, Set.disjoint_union_left, Set.disjoint_union_right,
        Set.disjoint_union_right] at hdisjoint
    refine ⟨fun r hr => (h.sane r hr).valid, fun r hr r' hr' hne => (hsplit r hr r' hr' hne).1.1,
      fun r hr r' hr' hne host hhost hhost' => ?_, fun r hr r' hr' host hhost n hn hmem => ?_⟩
    · obtain ⟨n, hn, rfl⟩ := (h.sane r hr).valid host hhost
      have hdisjoint := (hsplit r hr r' hr' hne).2.2
      rw [addressSet_hosts hn hhost, addressSet_hosts hn hhost'] at hdisjoint
      exact Set.disjoint_left.mp hdisjoint (Set.mem_singleton n) (Set.mem_singleton n)
    · obtain ⟨k, hk, rfl⟩ := (h.sane r hr).valid host hhost
      rw [ipToInt_intToIp hk] at hn
      obtain rfl := some.inj hn
      have hset := addressSet_hosts hk hhost
      by_cases hsame : r.name = r'.name
      · obtain rfl := eq_of_key t.nodup hr hr' hsame
        have hown := (h.sane r hr).own
        rw [hset] at hown
        exact Set.disjoint_left.mp hown hmem (Set.mem_singleton k)
      · have hdisjoint := (hsplit r hr r' hr' hsame).2.1
        rw [hset] at hdisjoint
        exact Set.disjoint_left.mp hdisjoint (Set.mem_singleton k) hmem

/-! ### What the checks say -/

theorem mem_otherPools (hr : r ∈ t.rows) (hne : r.name ≠ name) (hpool : r.addresses ≠ []) :
    (r.name, r.addresses) ∈ t.otherPools name := by
  refine List.mem_filterMap.mpr ⟨r, mem_filter.mpr ⟨hr, decide_eq_true hne⟩, ?_⟩
  cases hwanted : wantedMetalLB r with
  | none =>
    unfold ClusterRecord.addresses at hpool
    rw [hwanted] at hpool
    exact absurd rfl hpool
  | some a =>
    unfold ClusterRecord.addresses
    rw [hwanted]
    rfl

theorem disjoint_of_poolConflict (h : t.poolConflict texts name = none) (hr : r ∈ t.rows) :
    (r.name ≠ name → Disjoint (addressSet texts) r.pool) ∧ Disjoint (addressSet texts)
      (addressSet r.hosts) := by
  obtain ⟨hpools, hhosts⟩ := or_eq_none_iff.mp h
  constructor
  · intro hne
    unfold ClusterRecord.pool
    by_cases hpool : r.addresses = []
    · rw [hpool, addressSet_nil]
      exact disjoint_bot_right
    · have hclash := List.findSome?_eq_none_iff.mp hpools _ (mem_otherPools hr hne hpool)
      dsimp only at hclash
      split_ifs at hclash with hnil
      exact overlapping_eq_nil.mp (not_not.mp hnil)
  · have hhost := List.findSome?_eq_none_iff.mp hhosts r hr
    unfold ClusterRecord.hosts
    cases hendpoint : r.spec.endpointHost with
    | none =>
      rw [toList_none, addressSet_nil]
      exact disjoint_bot_right
    | some host =>
      rw [hendpoint, bind_some] at hhost
      split_ifs at hhost with hnil
      exact overlapping_eq_nil.mp (not_not.mp hnil)

theorem addressSet_mono {texts' : List String} (h : texts ⊆ texts') :
    addressSet texts ⊆ addressSet texts' := by
  rintro n ⟨r, hr, hn⟩
  obtain ⟨value, hvalue, hparse⟩ := List.mem_filterMap.mp hr
  exact mem_addressSet (h hvalue) hparse hn

theorem subset_reservedAddresses (hr : r ∈ t.rows) (hne : r.name ≠ name) :
    addressSet r.uses ⊆ addressSet (t.reservedAddresses name) := by
  refine addressSet_mono fun value hvalue => ?_
  rcases mem_append.mp hvalue with hpool | hhost
  · have hmem := mem_otherPools hr hne (ne_nil_of_mem hpool)
    exact mem_append_left _ (mem_flatMap.mpr ⟨_, hmem, hpool⟩)
  · exact mem_append_right _ (List.mem_filterMap.mpr ⟨r, hr, mem_toList.mp hhost⟩)

/-! ### What becomes of the records -/

structure Loses (r r' : ClusterRecord) : Prop where
  name : r'.name = r.name
  host : r'.spec.endpointHost = r.spec.endpointHost
  pool : r'.spec.metallb = r.spec.metallb ∨ r'.spec.metallb = none

theorem Loses.refl (r : ClusterRecord) : Loses r r := ⟨rfl, rfl, .inl rfl⟩

theorem Loses.hosts (h : Loses r r') : r'.hosts = r.hosts := by
  unfold ClusterRecord.hosts
  rw [h.host]

theorem Loses.addresses (h : Loses r r') : r'.addresses ⊆ r.addresses := by
  unfold ClusterRecord.addresses wantedMetalLB
  rcases h.pool with hpool | hpool
  · rw [hpool]
    exact List.Subset.refl _
  · rw [hpool]
    exact nil_subset _

theorem Loses.uses (h : Loses r r') : addressSet r'.uses ⊆ addressSet r.uses := by
  refine addressSet_mono fun value hvalue => ?_
  rcases mem_append.mp hvalue with hpool | hhost
  · exact mem_append_left _ (h.addresses hpool)
  · rw [h.hosts] at hhost
    exact mem_append_right _ hhost

theorem Loses.sane (h : Loses r r') (hr : Sane r) : Sane r' := by
  refine ⟨fun host hhost => hr.valid host (h.host.symm.trans hhost), ?_⟩
  rw [h.hosts]
  exact hr.own.mono_left (addressSet_mono h.addresses)

theorem Apart.loses (h : Apart t) (hfrom : ∀ r' ∈ t'.rows, ∃ r ∈ t.rows, Loses r r') :
    Apart t' := by
  constructor
  · intro r' hr'
    obtain ⟨r, hr, hloses⟩ := hfrom r' hr'
    exact hloses.sane (h.sane r hr)
  · intro r' hr' s' hs' hne
    obtain ⟨r, hr, hloses⟩ := hfrom r' hr'
    obtain ⟨s, hs, hloses'⟩ := hfrom s' hs'
    rw [hloses.name, hloses'.name] at hne
    exact (h.apart r hr s hs hne).mono hloses.uses hloses'.uses

theorem Apart.write {new : ClusterRecord} (h : Apart t) (hsane : Sane new)
    (hclear : ∀ r ∈ t.rows, r.name ≠ new.name → Disjoint (addressSet new.uses) (addressSet r.uses))
    (hfrom : ∀ r' ∈ t'.rows, (r'.name = new.name ∧ r'.spec = new.spec) ∨ r'.name ≠ new.name ∧
      r' ∈ t.rows) :
    Apart t' := by
  have huses : ∀ r' : ClusterRecord, r'.spec = new.spec → r'.uses = new.uses := by
    intro r' hspec
    unfold ClusterRecord.uses ClusterRecord.addresses ClusterRecord.hosts wantedMetalLB
    rw [hspec]
  constructor
  · intro r' hr'
    rcases hfrom r' hr' with ⟨-, hspec⟩ | ⟨-, hr⟩
    · refine ⟨fun host hhost => hsane.valid host (hspec ▸ hhost), ?_⟩
      unfold ClusterRecord.addresses ClusterRecord.hosts wantedMetalLB
      rw [hspec]
      exact hsane.own
    · exact h.sane r' hr
  · intro r' hr' s' hs' hne
    rcases hfrom r' hr' with ⟨hname, hspec⟩ | ⟨hname, hr⟩
    · rw [huses r' hspec]
      rcases hfrom s' hs' with ⟨hname', -⟩ | ⟨hname', hs⟩
      · exact absurd (hname.trans hname'.symm) hne
      · exact hclear s' hs hname'
    · rcases hfrom s' hs' with ⟨hname', hspec'⟩ | ⟨hname', hs⟩
      · rw [huses s' hspec']
        exact (hclear r' hr hname).symm
      · exact h.apart r' hr s' hs hne

/-! ### What was written meanwhile -/

/-- The record that a `PUT` writes. -/
def ClusterRecord.withPool (r : ClusterRecord) (body : MetalLBRequest) : ClusterRecord :=
  { r with spec := { r.spec with metallb := some body } }

def clearSince (i : ι) (c : AgentCall) (w : AgentState ι) : Prop :=
  match c with
  | .createRecord body host =>
    w.records.getByName body.name = none →
      ∀ r ∈ w.records.rows, w.seen i < w.writtenAt r.name →
        overlapping (newRecord body host).uses r.uses = []
  | .writePool name record body =>
    ∀ r ∈ w.records.rows, w.seen i < w.writtenAt r.name →
      if r.name = name then overlapping body.addresses record.hosts = []
      else (w.records.getByName name).isSome = true →
        overlapping (record.withPool body).uses r.uses = []
  | _ => True

instance (i : ι) (c : AgentCall) (w : AgentState ι) : Decidable (clearSince i c w) := by
  apply AgentCall.casesOn (motive := fun c => Decidable (clearSince i c w)) c
  all_goals intros; unfold clearSince; infer_instance

/-- Each record was written since, or uses no more than one that was there before. -/
structure Later (w w' : AgentState ι) : Prop where
  written : w.written ≤ w'.written
  writtenAt : ∀ name, w.writtenAt name ≤ w'.writtenAt name
  rows : ∀ r' ∈ w'.records.rows, w.written < w'.writtenAt r'.name ∨ ∃ r ∈ w.records.rows, Loses r r'

structure SharesInv (w : AgentState ι) : Prop where
  apart : Apart w.records
  seen : ∀ i, w.seen i ≤ w.written
  writtenAt : ∀ name, w.writtenAt name ≤ w.written

def sharing (ι : Type) : Protocol ι AgentCall (AgentState ι) JobStep where
  ok := clearSince
  okOutside _ _ := True
  inv := SharesInv
  rely i w w' :=
    w'.seen i = w.seen i ∧ (∀ name, w.writtenAt name ≤ w'.writtenAt name) ∧
      ∀ r' ∈ w'.records.rows, w'.writtenAt r'.name ≤ w.seen i → ∃ r ∈ w.records.rows, Loses r r'
  guar i w w' := (∀ j, j ≠ i → w'.seen j = w.seen j) ∧ Later w w'

/-- What holds of each record that was not written since the request began. -/
def OfOld (i : ι) (A : ClusterRecord → Prop) (w : AgentState ι) : Prop :=
  ∀ r ∈ w.records.rows, w.writtenAt r.name ≤ w.seen i → A r

section

variable {A : ClusterRecord → Prop}

structure Unwritten (w w' : AgentState ι) : Prop where
  records : w'.records = w.records
  written : w'.written = w.written
  writtenAt : w'.writtenAt = w.writtenAt
  seen : w'.seen = w.seen

omit [DecidableEq ι] in
theorem OfOld.rely (hA : ∀ r r', Loses r r' → A r → A r') (hrely : (sharing ι).rely i w w')
    (h : OfOld i A w) :
    OfOld i A w' := by
  obtain ⟨hseen, hat, hrows⟩ := hrely
  intro r' hr' hold
  rw [hseen] at hold
  obtain ⟨r, hr, hloses⟩ := hrows r' hr' hold
  have hold' : w.writtenAt r.name ≤ w.seen i := by
    have hle := hat r.name
    rw [hloses.name] at hold
    omega
  exact hA r r' hloses (h r hr hold')

omit [DecidableEq ι] in
theorem Unwritten.refl (w : AgentState ι) : Unwritten w w := ⟨rfl, rfl, rfl, rfl⟩

omit [DecidableEq ι] in
theorem Own.unwritten (h : Own w w') : Unwritten w w' := ⟨h.records, h.written, h.writtenAt, h.seen⟩

omit [DecidableEq ι] in
theorem Unwritten.inv (h : Unwritten w w') (hinv : SharesInv w) : SharesInv w' := by
  refine ⟨?_, ?_, ?_⟩
  · rw [h.records]
    exact hinv.apart
  · rw [h.seen, h.written]
    exact hinv.seen
  · rw [h.writtenAt, h.written]
    exact hinv.writtenAt

omit [DecidableEq ι] in
theorem Unwritten.later (h : Unwritten w w') : Later w w' := by
  refine ⟨Nat.le_of_eq h.written.symm, fun name => ?_, fun r' hr' => .inr ⟨r', ?_, .refl r'⟩⟩
  · rw [h.writtenAt]
  · rwa [h.records] at hr'

omit [DecidableEq ι] in
theorem Unwritten.guar (h : Unwritten w w') : (sharing ι).guar i w w' := by
  refine ⟨fun j _ => ?_, h.later⟩
  rw [h.seen]

omit [DecidableEq ι] in
theorem OfOld.unwritten (h : Unwritten w w') (hA : OfOld i A w) : OfOld i A w' := by
  unfold OfOld
  rw [h.records, h.writtenAt, h.seen]
  exact hA

variable {c : AgentCall}

theorem maintains_unwritten (hA : ∀ r r', Loses r r' → A r → A r')
    (hc : ∀ w o, Unwritten w (agentAnswer i c w o).2) :
    Maintains agent (sharing ι) i (OfOld i A) (Handler.call c : Route c.Answer) := by
  refine .call (fun _ _ => OfOld.rely hA) fun w o r hw hinv _ hr => ?_
  obtain rfl := some.inj hr
  have h := hc w o
  exact ⟨h.inv hinv, h.guar, hw.unwritten h⟩

theorem maintains_external (hA : ∀ r r', Loses r r' → A r → A r') (hc : c.external = true) :
    Maintains agent (sharing ι) i (OfOld i A) (Handler.call c : Route c.Answer) :=
  maintains_unwritten hA fun _ _ => (own_of_external hc).unwritten

omit [DecidableEq ι] in
theorem unwritten_start (w : AgentState ι) (cluster : String) (action : JobAction) :
    Unwritten w (w.start cluster action) := by
  unfold AgentState.start
  split_ifs
  · exact .refl w
  · exact ⟨rfl, rfl, rfl, rfl⟩

omit [DecidableEq ι] in
theorem unwritten_forgetJob (w : AgentState ι) (cluster : String) :
    Unwritten w (w.forgetJob cluster) := by
  unfold AgentState.forgetJob
  split_ifs
  · exact .refl w
  · exact ⟨rfl, rfl, rfl, rfl⟩

omit [DecidableEq ι] in
theorem Unwritten.trans {w'' : AgentState ι} (h : Unwritten w w') (h' : Unwritten w' w'') :
    Unwritten w w'' :=
  ⟨h'.records.trans h.records, h'.written.trans h.written, h'.writtenAt.trans h.writtenAt,
    h'.seen.trans h.seen⟩

/-! ### The calls -/

abbrev Easy (i : ι) {α : Type} (m : Route α) : Prop :=
    Maintains agent (sharing ι) i (fun _ => True) m

theorem easy_outer (project : String) : Outer (sharing ι) i project (fun _ => True) := by
  intro c hc _
  refine .call (fun _ _ _ _ => trivial) fun w o r _ hinv _ hr => ?_
  obtain rfl := some.inj hr
  have h : Unwritten w (agentAnswer i c w o).2 := (own_of_external hc).unwritten
  exact ⟨h.inv hinv, h.guar, trivial⟩

theorem easy_unwritten (hc : ∀ w o, Unwritten w (agentAnswer i c w o).2) :
    Easy i (Handler.call c : Route c.Answer) := by
  refine .call (fun _ _ _ _ => trivial) fun w o r _ hinv _ hr => ?_
  obtain rfl := some.inj hr
  exact ⟨(hc w o).inv hinv, (hc w o).guar, trivial⟩

omit [DecidableEq ι] in
theorem lose_rows (hinv : SharesInv w)
    (hfrom : ∀ r' ∈ w'.records.rows, ∃ r ∈ w.records.rows, Loses r r')
    (hwritten : w'.written = w.written) (hat : w'.writtenAt = w.writtenAt)
      (hseen : w'.seen = w.seen) :
    SharesInv w' ∧ (sharing ι).guar i w w' := by
  refine ⟨⟨hinv.apart.loses hfrom, ?_, ?_⟩, fun j _ => ?_,
    ⟨?_, fun name => ?_, fun r' hr' => .inr (hfrom r' hr')⟩⟩
  · rw [hseen, hwritten]
    exact hinv.seen
  · rw [hat, hwritten]
    exact hinv.writtenAt
  · rw [hseen]
  · exact Nat.le_of_eq hwritten.symm
  · rw [hat]

theorem easy_lose (hc : ∀ w o, ∃ w', Unwritten w' (agentAnswer i c w o).2 ∧
    (∀ r' ∈ w'.records.rows, ∃ r ∈ w.records.rows, Loses r r') ∧ w'.written = w.written ∧
      w'.writtenAt = w.writtenAt ∧ w'.seen = w.seen) :
    Easy i (Handler.call c : Route c.Answer) := by
  refine .call (fun _ _ _ _ => trivial) fun w o r _ hinv _ hr => ?_
  obtain rfl := some.inj hr
  obtain ⟨w', hsame, hfrom, hwritten, hat, hseen⟩ := hc w o
  rw [← hsame.records] at hfrom
  obtain ⟨hinv', hguar⟩ := lose_rows (i := i) hinv hfrom (hsame.written.trans hwritten)
    (hsame.writtenAt.trans hat)
    (hsame.seen.trans hseen)
  exact ⟨hinv', hguar, trivial⟩

theorem easy_deleteRecord : Easy i (Route.deleteRecord name) := by
  refine easy_lose (c := .deleteRecord name) fun w o => ?_
  refine ⟨{ w with records := w.records.deleteByName name }, unwritten_forgetJob _ _, fun r' hr' =>
    ?_, rfl, rfl, rfl⟩
  exact ⟨r', (ClusterRepo.mem_deleteByName.mp hr').1, .refl r'⟩

theorem easy_setError : Easy i (Route.setError name) := by
  refine easy_lose (c := .setError name) fun w o => ?_
  refine ⟨{ w with records := w.records.setStatus name .error }, .refl _, fun r' hr' => ?_, rfl,
    rfl, rfl⟩
  obtain ⟨r, hr, rfl⟩ := ClusterRepo.mem_setStatus.mp hr'
  refine ⟨r, hr, ?_⟩
  split_ifs
  · exact ⟨rfl, rfl, .inl rfl⟩
  · exact .refl r

theorem easy_dropPool : Easy i (Route.dropPool name) := by
  refine easy_lose (c := .dropPool name) fun w o => ?_
  unfold agentAnswer
  dsimp only
  split
  · exact ⟨w, .refl w, fun r hr => ⟨r, hr, .refl r⟩, rfl, rfl, rfl⟩
  · rename_i r hr
    obtain ⟨hmem, hname⟩ := ClusterRepo.getByName_eq_some.mp hr
    refine ⟨_, (unwritten_forgetJob _ _).trans (unwritten_start _ _ _), fun r' hr' => ?_, rfl, rfl,
      rfl⟩
    obtain ⟨r₀, hr₀, rfl⟩ := ClusterRepo.mem_setSpec.mp hr'
    refine ⟨r₀, hr₀, ?_⟩
    split_ifs with hsame
    · obtain rfl := eq_of_key w.records.nodup hr₀ hmem (hsame.trans hname.symm)
      exact ⟨rfl, rfl, .inr rfl⟩
    · exact .refl r₀

theorem easy_settleStatus {job : Option ℕ} {installed : Bool} :
    Easy i (Route.settleStatus name record job installed) := by
  refine easy_unwritten (c := .settleStatus name record job installed) fun w o => ?_
  unfold agentAnswer
  dsimp only
  split
  · exact unwritten_start _ _ _
  · exact .refl w

theorem easy_undo (on : Bool) : Easy i (Route.undo on) :=
  easy_unwritten (c := .undo on) fun _ _ => ⟨rfl, rfl, rfl, rfl⟩

/-! ### Requests begin -/

theorem safe_begin {Q : c.Answer → AgentState ι → Prop} (cluster : String)
    (hc : ∀ w o, ∃ a, agentAnswer i c w o = (.ok a, w.begins i cluster) ∧
      (SharesInv w → (∀ r ∈ w.records.rows,
        (w.begins i cluster).writtenAt r.name ≤ (w.begins i cluster).seen i) →
        Q a (w.begins i cluster))) :
    safe agent (sharing ι) i (fun a _ w => Q a w) (fun _ _ _ => True)
      (Handler.call c : Route c.Answer) l w := by
  refine safe_call (J := fun _ => True) (fun _ _ _ _ => trivial)
    (fun w o r _ hinv _ hr => ?_) trivial
  obtain rfl := some.inj hr
  obtain ⟨a, ha, hQ⟩ := hc w o
  rw [ha]
  replace hinv : SharesInv w := hinv
  have hseen : (w.begins i cluster).seen i = w.written := seen_begins w i cluster
  have hothers : ∀ j, j ≠ i → (w.begins i cluster).seen j = w.seen j := by
    intro j hj
    show Function.update w.seen i w.written j = w.seen j
    rw [Function.update_of_ne hj]
  refine ⟨⟨hothers, Nat.le_refl _, fun _ => Nat.le_refl _, fun r hr => .inr ⟨r, hr, .refl r⟩⟩,
    ⟨hinv.apart, fun j => ?_, hinv.writtenAt⟩, hQ hinv fun r _ => ?_⟩
  · by_cases hj : j = i
    · rw [hj, hseen]
      exact Nat.le_refl _
    · rw [hothers j hj]
      exact hinv.seen j
  · rw [hseen]
    exact hinv.writtenAt r.name

/-! ### Writes -/

omit [DecidableEq ι] in
theorem disjoint_of_old {w : AgentState ι}
    (hold : OfOld i (fun r => Disjoint (addressSet texts) (addressSet r.uses)) w)
    (hsince : ∀ r ∈ w.records.rows, w.seen i < w.writtenAt r.name → overlapping texts r.uses = []) :
    ∀ r ∈ w.records.rows, Disjoint (addressSet texts) (addressSet r.uses) := by
  intro r hr
  by_cases hwhen : w.writtenAt r.name ≤ w.seen i
  · exact hold r hr hwhen
  · exact overlapping_eq_nil.mp (hsince r hr (by omega))

omit [DecidableEq ι] in
theorem wrote {t : ClusterRepo} (hinv : SharesInv w) (hapart : Apart t) (hrecords : w'.records = t)
    (hfrom : ∀ r' ∈ t.rows, r'.name = name ∨ r' ∈ w.records.rows)
      (hwritten : w'.written = w.written + 1)
    (hat : w'.writtenAt = Function.update w.writtenAt name (w.written + 1))
      (hseen : w'.seen = w.seen) :
    (sharing ι).guar i w w' ∧ SharesInv w' ∧ True := by
  have hname : w'.writtenAt name = w.written + 1 := by
    rw [hat, Function.update_self]
  have hother : ∀ other, other ≠ name → w'.writtenAt other = w.writtenAt other := by
    intro other hother
    rw [hat, Function.update_of_ne hother]
  refine ⟨⟨fun j _ => ?_, by omega, fun other => ?_, fun r' hr' => ?_⟩,
    ⟨?_, fun j => ?_, fun other => ?_⟩, trivial⟩
  · rw [hseen]
  · by_cases hsame : other = name
    · have hle := hinv.writtenAt name
      rw [hsame, hname]
      omega
    · rw [hother other hsame]
  · rw [hrecords] at hr'
    rcases hfrom r' hr' with hsame | hr
    · left
      rw [hsame, hname]
      omega
    · exact .inr ⟨r', hr, .refl r'⟩
  · rw [hrecords]
    exact hapart
  · have hle := hinv.seen j
    rw [hseen]
    omega
  · by_cases hsame : other = name
    · rw [hsame, hname]
      omega
    · have hle := hinv.writtenAt other
      rw [hother other hsame]
      omega

abbrev ClearOf (i : ι) (texts : List String) : AgentState ι → Prop :=
  OfOld i fun r => Disjoint (addressSet texts) (addressSet r.uses)

theorem clearOf_loses (texts : List String) (r r' : ClusterRecord) (h : Loses r r')
    (hr : Disjoint (addressSet texts) (addressSet r.uses)) : Disjoint (addressSet texts)
      (addressSet r'.uses) :=
  hr.mono_right h.uses

theorem share_createRecord {host : Option String} (hsane : Sane (newRecord body host))
    (hw : ClearOf i (newRecord body host).uses w) :
    safe agent (sharing ι) i (fun _ _ _ => True) (fun _ _ _ => True)
      (Route.createRecord body host) l w := by
  refine safe_call (c := AgentCall.createRecord body host)
    (fun w w' => OfOld.rely (clearOf_loses (newRecord body host).uses))
      (fun w o r hw hinv hok hr => ?_) hw
  obtain rfl := some.inj hr
  replace hinv : SharesInv w := hinv
  replace hok : clearSince i (.createRecord body host) w := hok
  unfold agentAnswer
  dsimp only
  split
  · have hrefl := Unwritten.refl w
    exact ⟨hrefl.guar, hinv, trivial⟩
  · rename_i t ht
    obtain ⟨hfree, hrows⟩ := ClusterRepo.create_eq_some ht
    have hnone : w.records.getByName body.name = none := ClusterRepo.getByName_eq_none.mpr hfree
    have hclear := disjoint_of_old hw (hok hnone)
    have hmem : ∀ r' ∈ t.rows, r' = newRecord body host ∨ r' ∈ w.records.rows := by
      intro r' hr'
      rw [hrows] at hr'
      exact mem_cons.mp hr'
    have hapart : Apart t := by
      refine hinv.apart.write hsane (fun r hr _ => hclear r hr) fun r' hr' => ?_
      rcases hmem r' hr' with rfl | hr
      · exact .inl ⟨rfl, rfl⟩
      · exact .inr ⟨hfree r' hr, hr⟩
    have hfrom : ∀ r' ∈ t.rows, r'.name = body.name ∨ r' ∈ w.records.rows := by
      intro r' hr'
      rcases hmem r' hr' with rfl | hr
      · exact .inl rfl
      · exact .inr hr
    exact wrote hinv hapart rfl hfrom rfl rfl rfl

/-- What a `PUT` knows of an old record: its cluster's has the endpoint that it read, and the
addresses that it asks for and that endpoint are clear of the others. -/
structure FitsPool (name : String) (record : ClusterRecord) (texts : List String)
    (r : ClusterRecord) : Prop where
  same : r.name = name → r.hosts = record.hosts
  other : r.name ≠ name → Disjoint (addressSet record.hosts) (addressSet r.uses)
  host : Disjoint (addressSet texts) (addressSet r.hosts)
  pool : r.name ≠ name → Disjoint (addressSet texts) r.pool

theorem fitsPool_loses (r r' : ClusterRecord) (h : Loses r r')
    (hr : FitsPool name record texts r) : FitsPool name record texts r' := by
  refine ⟨fun hname => ?_, fun hname => ?_, ?_, fun hname => ?_⟩
  · rw [h.hosts]
    exact hr.same (h.name.symm.trans hname)
  · exact (hr.other fun hsame => hname (h.name.trans hsame)).mono_right h.uses
  · rw [h.hosts]
    exact hr.host
  · exact (hr.pool fun hsame => hname (h.name.trans hsame)).mono_right (addressSet_mono h.addresses)

omit [DecidableEq ι] in
theorem writable {r₀ : ClusterRecord} {body : MetalLBRequest}
    (hvalid : ∀ host, record.spec.endpointHost = some host → ∃ n < 2 ^ 32, host = intToIp n)
    (hw : OfOld i (FitsPool name record body.addresses) w)
      (hok : clearSince i (.writePool name record body) w)
    (hr₀ : w.records.getByName name = some r₀) :
    Sane (record.withPool body) ∧
      ∀ r ∈ w.records.rows, r.name ≠ name → Disjoint (addressSet (record.withPool body).uses)
        (addressSet r.uses) := by
  obtain ⟨hmem, hname₀⟩ := ClusterRepo.getByName_eq_some.mp hr₀
  have huses : (record.withPool body).uses = body.addresses ++ record.hosts := rfl
  refine ⟨⟨hvalid, ?_⟩, fun r hr hne => ?_⟩
  · show Disjoint (addressSet body.addresses) (addressSet record.hosts)
    by_cases hwhen : w.writtenAt r₀.name ≤ w.seen i
    · have hfits := hw r₀ hmem hwhen
      rw [← hfits.same hname₀]
      exact hfits.host
    · have hsince := hok r₀ hmem (by omega)
      rw [if_pos hname₀] at hsince
      exact overlapping_eq_nil.mp hsince
  · by_cases hwhen : w.writtenAt r.name ≤ w.seen i
    · have hfits := hw r hr hwhen
      rw [huses, addressSet_append, Set.disjoint_union_left, addressSet_uses,
        Set.disjoint_union_right]
      refine ⟨⟨hfits.pool hne, hfits.host⟩, ?_⟩
      rw [← addressSet_uses]
      exact hfits.other hne
    · have hsince := hok r hr (by omega)
      rw [if_neg hne, hr₀] at hsince
      exact overlapping_eq_nil.mp (hsince rfl)

theorem share_writePool {body : MetalLBRequest} (hname : record.name = name)
    (hvalid : ∀ host, record.spec.endpointHost = some host → ∃ n < 2 ^ 32, host = intToIp n)
    (hw : OfOld i (FitsPool name record body.addresses) w) :
    safe agent (sharing ι) i (fun _ _ _ => True) (fun _ _ _ => True)
      (Route.writePool name record body) l w := by
  refine safe_call (c := AgentCall.writePool name record body)
    (fun w w' => OfOld.rely fitsPool_loses) (fun w o r hw hinv hok hr => ?_) hw
  obtain rfl := some.inj hr
  replace hinv : SharesInv w := hinv
  have hfrom : ∀ r' ∈ (w.records.setSpec name (record.withPool body).spec).rows,
      (r'.name = name ∧ r'.spec = (record.withPool body).spec) ∨ r'.name ≠ name ∧
        r' ∈ w.records.rows := by
    intro r' hr'
    obtain ⟨r₀, hr₀, rfl⟩ := ClusterRepo.mem_setSpec.mp hr'
    split_ifs with hsame
    · exact .inl ⟨hsame, rfl⟩
    · exact .inr ⟨hsame, hr₀⟩
  have hapart : Apart (w.records.setSpec name (record.withPool body).spec) := by
    cases hr₀ : w.records.getByName name with
    | none =>
      refine hinv.apart.loses fun r' hr' => ?_
      obtain ⟨r, hr, rfl⟩ := ClusterRepo.mem_setSpec.mp hr'
      rw [if_neg (ClusterRepo.getByName_eq_none.mp hr₀ r hr)]
      exact ⟨r, hr, .refl r⟩
    | some r₀ =>
      obtain ⟨hsane, hclear⟩ := writable hvalid hw hok hr₀
      have hnew : (record.withPool body).name = name := hname
      refine hinv.apart.write hsane (fun r hr hne => hclear r hr (hnew ▸ hne)) ?_
      rw [hnew]
      exact hfrom
  have hsame := (unwritten_forgetJob
    { w with
      records := w.records.setSpec name (record.withPool body).spec
      written := w.written + 1
      writtenAt := Function.update w.writtenAt name (w.written + 1) } name).trans
    (unwritten_start _ name (.install body.addresses))
  exact wrote hinv hapart hsame.records
    (fun r' hr' => (hfrom r' hr').imp (fun h => h.1) fun h => h.2)
      hsame.written hsame.writtenAt hsame.seen

/-! ### `PUT` -/

structure HasRead (i : ι) (name : String) (record : ClusterRecord) (texts : List String)
    (w : AgentState ι) : Prop where
  named : record.name = name
  valid : ∀ host, record.spec.endpointHost = some host → ∃ n < 2 ^ 32, host = intToIp n
  old : OfOld i (FitsPool name record texts) w

theorem share_getByName : safe agent (sharing ι) i
    (fun record _ w => ∀ r, record = some r → HasRead i name r [] w) (fun _ _ _ => True)
      (Route.getByName name) l w := by
  refine safe_begin (c := .getByName name) name fun w o => ⟨_, rfl, fun hinv _ record hrecord => ?_⟩
  obtain ⟨hmem, hname⟩ := ClusterRepo.getByName_eq_some.mp hrecord
  refine ⟨hname, (hinv.apart.sane record hmem).valid, fun r hr _ =>
    ⟨fun hsame => ?_, fun hne => ?_, ?_, fun _ => ?_⟩⟩
  · rw [eq_of_key w.records.nodup hr hmem (hsame.trans hname.symm)]
  · have hdisjoint := hinv.apart.apart record hmem r hr fun hsame => hne (hsame.symm.trans hname)
    rw [addressSet_uses, Set.disjoint_union_left] at hdisjoint
    exact hdisjoint.2
  · rw [addressSet_nil]
    exact disjoint_bot_left
  · rw [addressSet_nil]
    exact disjoint_bot_left

theorem share_poolConflict (hw : HasRead i name record [] w) :
    safe agent (sharing ι) i (fun conflict _ w => conflict = none → HasRead i name record texts w)
      (fun _ _ _ => True) (Route.poolConflict texts name) l w := by
  refine safe_call (c := AgentCall.poolConflict texts name) (fun w w' => OfOld.rely fitsPool_loses)
    (fun w o r hold hinv _ hr => ?_) hw.old
  obtain rfl := some.inj hr
  have hrefl := Unwritten.refl w
  refine ⟨hrefl.guar, hinv, fun hconflict => ⟨hw.named, hw.valid, fun r hr hwhen => ?_⟩⟩
  obtain ⟨hsame, hother, -, -⟩ := hold r hr hwhen
  obtain ⟨hpool, hhost⟩ := disjoint_of_poolConflict hconflict hr
  exact ⟨hsame, hother, hhost, hpool⟩

theorem share_checkNetwork {record' : ClusterRecord} {body : MetalLBRequest} :
    Maintains agent (sharing ι) i (OfOld i (FitsPool name record texts))
      (checkNetwork record' body) := by
  have hnetwork : Maintains agent (sharing ι) i (OfOld i (FitsPool name record texts))
      (Route.clusterNetwork record'.project) :=
        maintains_external fitsPool_loses (c := .clusterNetwork record'.project) rfl
  have hfacts : ∀ network, Maintains agent (sharing ι) i (OfOld i (FitsPool name record texts))
      (Route.networkFacts network) := fun network =>
    maintains_external fitsPool_loses (c := .networkFacts network) rfl
  exact .tryCatch (.bind hnetwork fun network => .bind (hfacts network) fun facts => .pure _)
    fun _ => .pure _

theorem share_putPool {body : MetalLBRequest} (hw : HasRead i name record [] w) :
    safe agent (sharing ι) i (fun _ _ _ => True) (fun _ _ _ => True)
      (putPool name record body) l w := by
  have hkubeconfig : Maintains agent (sharing ι) i (OfOld i (FitsPool name record []))
      (Route.hasKubeconfig name) := maintains_external fitsPool_loses (c := .hasKubeconfig name) rfl
  unfold putPool
  rw [safe_bind]
  refine hkubeconfig.safe hw.old (fun has l w hold => ?_) fun _ _ _ _ => trivial
  cases has with
  | false => trivial
  | true =>
    show safe agent (sharing ι) i _ _ (Route.poolConflict body.addresses name >>= _) l w
    refine safe_seq (share_poolConflict ⟨hw.named, hw.valid, hold⟩) fun conflict l w hread => ?_
    cases conflict with
    | some detail => trivial
    | none =>
      obtain ⟨hname, hvalid, hold⟩ := hread rfl
      show safe agent (sharing ι) i _ _ (checkNetwork record body >>= _) l w
      rw [safe_bind]
      refine share_checkNetwork.safe hold (fun outside l w hold => ?_) fun _ _ _ _ => trivial
      cases outside with
      | some detail => trivial
      | none =>
        show safe agent (sharing ι) i _ _ (Route.writePool name record body >>= _) l w
        rw [safe_bind]
        exact safe_mono (fun _ _ _ _ => trivial) (fun _ _ _ h => h)
          (share_writePool hname hvalid hold)

theorem share_putMetalLB {body : MetalLBRequest} : safe agent (sharing ι) i (fun _ _ _ => True)
    (fun _ _ _ => True) (putMetalLB name body) l w := by
  refine safe_seq share_getByName fun record l w hread => ?_
  cases record with
  | none => trivial
  | some record => exact share_putPool (hread record rfl)

/-! ### `DELETE` and `GET` -/

theorem easy_getByName : Easy i (Route.getByName name) := fun _ _ _ =>
  safe_begin (c := .getByName name) name fun _ _ => ⟨_, rfl, fun _ _ => trivial⟩

theorem easy_deleteCluster : Easy i (deleteCluster name) := by
  refine .bind easy_getByName fun record => ?_
  cases record with
  | none => exact .pure _
  | some record =>
    have hsteps : Easy i (deleteSteps name record) :=
      maintains_deleteSteps (easy_outer "" .capnReady rfl trivial)
        (easy_outer "").deleteClusterCrd fun project _ =>
        (easy_outer project).deleteProject
    refine .bind (maintains_failure hsteps) fun failed => ?_
    cases failed with
    | some e => exact .bind easy_setError fun _ => .pure _
    | none => exact .bind easy_deleteRecord fun _ => .pure _

theorem easy_deleteMetalLB : Easy i (deleteMetalLB name) := .bind easy_dropPool fun _ => .pure _

theorem easy_getMetalLB : Easy i (getMetalLB name) := by
  have hread : Easy i (Route.readStatus name) := easy_unwritten (c := .readStatus name) fun w _ =>
    .refl w
  have hobserve : Easy i (Route.observe name) := easy_outer "" (.observe name) rfl trivial
  refine .bind hread fun found => ?_
  cases found with
  | none => exact .pure _
  | some found => exact .tryCatch (.bind hobserve fun installed => easy_settleStatus) fun e => .pure _

/-! ### `POST` -/

/-- What a `POST` knows of an old record, when it has checked its pool. -/
def FitsNew (body : CreateClusterBody) (r : ClusterRecord) : Prop :=
  r.name ≠ body.name ∧ Disjoint (addressSet body.addresses) (addressSet r.uses)

def Covered (body : CreateClusterBody) (taken : List String) (r : ClusterRecord) : Prop :=
  FitsNew body r ∧ addressSet r.uses ⊆ addressSet taken

theorem fitsNew_loses (r r' : ClusterRecord) (h : Loses r r') (hr : FitsNew body r) :
    FitsNew body r' :=
  ⟨fun hname => hr.1 (h.name.symm.trans hname), hr.2.mono_right h.uses⟩

theorem covered_loses (r r' : ClusterRecord) (h : Loses r r')
    (hr : Covered body taken r) : Covered body taken r' :=
  ⟨fitsNew_loses r r' h hr.1, h.uses.trans hr.2⟩

theorem fitsNew_of_refusal (h : refusal t body = none) (hr : r ∈ t.rows) : FitsNew body r := by
  unfold refusal at h
  split_ifs at h with hthere
  have hnone : t.getByName body.name = none := not_isSome_iff_eq_none.mp hthere
  have hname := ClusterRepo.getByName_eq_none.mp hnone r hr
  refine ⟨hname, ?_⟩
  unfold CreateClusterBody.addresses
  cases hmetallb : body.metallb with
  | none =>
    show Disjoint (addressSet []) (addressSet r.uses)
    rw [addressSet_nil]
    exact disjoint_bot_left
  | some m =>
    rw [hmetallb, bind_some] at h
    obtain ⟨hpool, hhost⟩ := disjoint_of_poolConflict (map_eq_none_iff.mp h) hr
    rw [addressSet_uses, Set.disjoint_union_right]
    exact ⟨hpool hname, hhost⟩

theorem share_precheck : safe agent (sharing ι) i
    (fun refused _ w => refused = none → OfOld i (FitsNew body) w) (fun _ _ _ => True)
      (Route.precheck body) l w :=
  safe_begin (c := .precheck body) body.name fun _ _ => ⟨_, rfl, fun _ _ hrefused _ hr _ =>
    fitsNew_of_refusal hrefused hr⟩

theorem share_reserved (hw : OfOld i (FitsNew body) w) : safe agent (sharing ι) i
    (fun taken _ w => OfOld i (Covered body taken) w) (fun _ _ _ => True)
      (Route.reserved body.name) l w := by
  refine safe_call (c := AgentCall.reserved body.name) (fun w w' => OfOld.rely fitsNew_loses)
    (fun w o r hw hinv _ hr => ?_) hw
  obtain rfl := some.inj hr
  have hrefl := Unwritten.refl w
  refine ⟨hrefl.guar, hinv, fun r hr hwhen => ?_⟩
  have hfits := hw r hr hwhen
  exact ⟨hfits, subset_reservedAddresses hr hfits.1⟩

def PinnedBeside (taken : List String) (host : Option String) : Prop :=
  ∀ h, host = some h → ∃ n < 2 ^ 32, h = intToIp n ∧ n ∉ addressSet taken

theorem share_pinEndpoint {A : ClusterRecord → Prop} (hA : ∀ r r', Loses r r' → A r → A r')
    {className project network : String} {hasClass : Bool} (hw : OfOld i A w) :
    safe agent (sharing ι) i (fun host _ w => OfOld i A w ∧ PinnedBeside taken host)
      (fun _ _ => OfOld i A)
      (pinEndpoint className hasClass project network taken) l w := by
  have hfacts : Maintains agent (sharing ι) i (OfOld i A) (Route.networkFacts network) :=
    maintains_external hA (c := .networkFacts network) rfl
  have hprofile : Maintains agent (sharing ι) i (OfOld i A) (ensureLoadBalancerProfile project) :=
    maintains_external hA (c := .putProfile project lbProfile) rfl
  have hclass : Maintains agent (sharing ι) i (OfOld i A) (Route.patchLiveClass className) :=
    maintains_external hA (c := .patchLiveClass className) rfl
  unfold pinEndpoint pickEndpointAddress
  rw [safe_bind, safe_bind]
  refine hfacts.safe hw (fun facts l w hw => ?_) fun _ _ _ h => h
  rw [safe_pure]
  cases hpick : pickAddress facts taken with
  | none => exact ⟨hw, fun h hh => (nomatch hh)⟩
  | some host =>
    have hpinned : PinnedBeside taken (some host) := by
      intro h hh
      obtain rfl := some.inj hh
      exact pickAddress_spec hpick
    show safe agent (sharing ι) i _ _ (ensureLoadBalancerProfile project >>= _) l w
    rw [safe_bind]
    refine hprofile.safe hw (fun _ l w hw => ?_) fun _ _ _ h => h
    rw [safe_bind]
    exact (Maintains.when _ hclass).safe hw (fun _ _ _ hw => ⟨hw, hpinned⟩) fun _ _ _ h => h

theorem share_pinClusterEndpoint {A : ClusterRecord → Prop} (hA : ∀ r r', Loses r r' → A r → A r')
    {manifest : Manifest} {project network : String} (hw : OfOld i A w) :
    safe agent (sharing ι) i (fun host _ w => OfOld i A w ∧ PinnedBeside taken host)
      (fun _ _ => OfOld i A)
      (pinClusterEndpoint manifest project network taken) l w := by
  have hnone : PinnedBeside taken none := fun h hh => (nomatch hh)
  unfold pinClusterEndpoint
  split_ifs
  · split
    · exact ⟨hw, hnone⟩
    · rw [safe_tryCatch]
      exact safe_mono (fun _ _ _ h => h) (fun _ _ _ hw => ⟨hw, hnone⟩) (share_pinEndpoint hA hw)
  · exact ⟨hw, hnone⟩

structure MayCreate (i : ι) (body : CreateClusterBody) (host : Option String) (w : AgentState ι) :
    Prop where
  sane : Sane (newRecord body host)
  clear : ClearOf i (newRecord body host).uses w

omit [DecidableEq ι] in
theorem mayCreate_of_pinned {host : Option String}
    (hw : OfOld i (Covered body taken) w) (hhost : PinnedBeside (taken ++ body.addresses) host) :
    MayCreate i body host w := by
  have huses : (newRecord body host).uses = body.addresses ++ host.toList := rfl
  cases host with
  | none =>
    refine ⟨⟨fun h hh => (nomatch hh), ?_⟩, fun r hr hwhen => ?_⟩
    · show Disjoint (addressSet body.addresses) (addressSet [])
      rw [addressSet_nil]
      exact disjoint_bot_right
    · rw [huses, toList_none, append_nil]
      exact (hw r hr hwhen).1.2
  | some h =>
    obtain ⟨n, hn, rfl, hfree⟩ := hhost h rfl
    rw [addressSet_append, Set.mem_union, not_or] at hfree
    refine ⟨⟨fun h hh => ⟨n, hn, (some.inj hh).symm⟩, ?_⟩, fun r hr hwhen => ?_⟩
    · show Disjoint (addressSet body.addresses) (addressSet [intToIp n])
      rw [addressSet_intToIp hn, Set.disjoint_singleton_right]
      exact hfree.2
    · obtain ⟨hfits, hcovered⟩ := hw r hr hwhen
      rw [huses, addressSet_append, Set.disjoint_union_left, toList_some, addressSet_intToIp hn,
        Set.disjoint_singleton_left]
      exact ⟨hfits.2, fun hmem => hfree.1 (hcovered hmem)⟩

theorem share_createSteps (hw : OfOld i (FitsNew body) w) :
    safe agent (sharing ι) i (fun _ l w => MayCreate i body l.endpointHost w) (fun _ _ _ => True)
      (createSteps body) l w := by
  have hproject : Gentle (sharing ι) i body.projectName (OfOld i (FitsNew body)) := fun _ hc _ _ =>
    maintains_external fitsNew_loses hc
  have hresources :
    Maintains agent (sharing ι) i (OfOld i (FitsNew body)) Route.resolveWorkloadResources :=
    maintains_external fitsNew_loses (c := .resolveWorkloadResources) rfl
  have hprofile : ∀ pool network, Maintains agent (sharing ι) i (OfOld i (FitsNew body))
      (Route.ensureWorkloadProfile body.projectName pool network) := fun pool network =>
    maintains_external fitsNew_loses (c := .putDefaultProfile body.projectName pool network) rfl
  have hsecret : Maintains agent (sharing ι) i (OfOld i (FitsNew body))
      (Route.applyIdentitySecret (secretNameFor body.name) body.projectName) :=
    maintains_external fitsNew_loses (c := .applySecret (secretNameFor body.name) body.projectName)
      rfl
  have hmanifest : Maintains agent (sharing ι) i (OfOld i (FitsNew body)) Route.generateCluster :=
    maintains_external fitsNew_loses (c := .generateCluster) rfl
  have hpost : Maintains agent (sharing ι) i (OfOld i (FitsNew body))
      (Route.postProject body.projectName (buildProjectConfig body.projectMetadata)) :=
    maintains_external fitsNew_loses (c :=
      .postProject body.projectName (buildProjectConfig body.projectMetadata)) rfl
  unfold createSteps
  rw [safe_bind]
  refine (hproject.createProject hpost).safe hw (fun _ l w hw => ?_) fun _ _ _ _ => trivial
  rw [safe_bind]
  refine hresources.safe hw (fun resources l w hw => ?_) fun _ _ _ _ => trivial
  rw [safe_bind]
  refine (hprofile _ _).safe hw (fun _ l w hw => ?_) fun _ _ _ _ => trivial
  rw [safe_bind]
  refine hsecret.safe hw (fun _ l w hw => ?_) fun _ _ _ _ => trivial
  rw [safe_bind]
  refine hmanifest.safe hw (fun manifest l w hw => ?_) fun _ _ _ _ => trivial
  refine safe_seq (share_reserved hw) fun taken l w hw => ?_
  rw [safe_bind]
  refine safe_mono (fun host l w hpinned => ?_) (fun _ _ _ _ => trivial)
    (share_pinClusterEndpoint covered_loses hw)
  rw [safe_bind, safe_assign]
  have hmay := mayCreate_of_pinned hpinned.1 hpinned.2
  refine safe_call (c := AgentCall.applyManifest body.name)
    (fun w w' => OfOld.rely (clearOf_loses (newRecord body host).uses))
      (fun w o r hclear hinv _ hr => ?_) hmay.clear
  obtain rfl := some.inj hr
  have hsame : Unwritten w (agentAnswer i (.applyManifest body.name) w o).2 :=
    (own_of_external rfl).unwritten
  exact ⟨hsame.guar,
    .of_forall (hsame.inv hinv) (fun _ => ⟨hmay.sane, hclear.unwritten hsame⟩) fun _ => trivial⟩

theorem share_create (hw : OfOld i (FitsNew body) w) :
    safe agent (sharing ι) i (fun _ _ _ => True) (fun _ _ _ => True) (create body) l w := by
  unfold create failure
  rw [safe_bind, safe_tryCatch, safe_bind]
  refine safe_mono (fun _ l w hmay => ?_) (fun e l w _ => ?_) (share_createSteps hw)
  · rw [safe_pure]
    show safe agent (sharing ι) i _ _ (Handler.locals >>= _) l w
    rw [safe_bind, safe_locals, safe_bind]
    exact safe_mono (fun _ _ _ _ => trivial) (fun _ _ _ h => h)
      (share_createRecord hmay.sane hmay.clear)
  · rw [safe_pure]
    have hrollback : Easy i (rollback body) :=
      .bind (easy_undo true) fun _ =>
        .bind (.tryCatch (easy_outer body.projectName).deleteClusterCrd fun _ => .pure ()) fun _ =>
        .bind (.tryCatch (easy_outer _).deleteProject fun _ => .pure ()) fun _ => easy_undo false
    show safe agent (sharing ι) i _ _ (rollback body >>= _) l w
    rw [safe_bind]
    exact hrollback.safe trivial (fun _ _ _ _ => trivial) fun _ _ _ _ => trivial

theorem share_postCluster : safe agent (sharing ι) i (fun _ _ _ => True)
    (fun _ _ _ => True) (postCluster body) l w := by
  refine safe_seq share_precheck fun refused l w hadmitted => ?_
  cases refused with
  | some reply => trivial
  | none =>
    have hready : Maintains agent (sharing ι) i (OfOld i (FitsNew body)) Route.capnReady :=
      maintains_external fitsNew_loses (c := .capnReady) rfl
    show safe agent (sharing ι) i _ _ (Route.capnReady >>= _) l w
    rw [safe_bind]
    refine hready.safe (hadmitted rfl) (fun ready l w hw => ?_) fun _ _ _ _ => trivial
    cases ready with
    | true => exact share_create hw
    | false => trivial

/-! ### Runs -/

theorem share_request {request : AgentRequest} : safe agent (sharing ι) i (fun _ _ _ => True)
    (fun _ _ _ => True) request.route l w := by
  cases request with
  | post body => exact share_postCluster
  | delete name => exact easy_deleteCluster.safe trivial (fun _ _ _ _ => trivial) fun _ _ _ _ => trivial
  | getPool name => exact easy_getMetalLB.safe trivial (fun _ _ _ _ => trivial) fun _ _ _ _ => trivial
  | putPool name body => exact share_putMetalLB
  | deletePool name => exact easy_deleteMetalLB.safe trivial (fun _ _ _ _ => trivial) fun _ _ _ _ => trivial

theorem compatible_sharing : Team.Compatible agent (sharing ι) := by
  refine ⟨fun i j w w' hij hinv _ hguar => ?_, fun x w w' hinv _ hw' => ?_⟩
  · obtain ⟨hothers, hlater⟩ := hguar
    refine ⟨hothers j (Ne.symm hij), hlater.writtenAt, fun r' hr' hold => ?_⟩
    rcases hlater.rows r' hr' with hnew | hr
    · -- What was written just now is not old.
      have hseen := SharesInv.seen hinv j
      omega
    · exact hr
  · obtain ⟨-, hbeside⟩ := grows_jobStep hw'
    have hsame : Unwritten w w' :=
      ⟨hbeside.records, hbeside.written, hbeside.writtenAt, hbeside.seen⟩
    refine ⟨hsame.inv hinv, fun j =>
      ⟨congrFun hbeside.seen j, hsame.later.writtenAt, fun r' hr' _ => ⟨r', ?_, .refl r'⟩⟩⟩
    rwa [hbeside.records] at hr'

/-- However creates, deletes and requests about MetalLB overlap and fail: if what was written since
a request began does not overlap with what it writes, then no two clusters share an address. -/
theorem addresses_apart {requests : ι → AgentRequest} (hw : NoneShared w.records)
    (hseen : ∀ i, w.seen i ≤ w.written)
    (hat : ∀ name, w.writtenAt name ≤ w.written) {s : AgentProcs ι}
    (hs : Run agent.step (okStep clearSince fun _ _ => True) (allRequests w requests) s) :
    NoneShared s.world.records := by
  have hinv : SharesInv w := ⟨noneShared_iff.mp hw, hseen, hat⟩
  have hsound : Team.Sound agent (sharing ι) (fun _ _ _ => True) (allRequests w requests) :=
    ⟨hinv, fun i => Prog.safe_mono (fun _ _ _ => trivial) share_request⟩
  have hend : Team.Sound agent (sharing ι) (fun _ _ _ => True) s :=
    Team.run_safe (P := sharing ι) compatible_sharing (fun _ _ _ _ _ _ => trivial) hsound hs
  have hinv' : SharesInv s.world := hend.inv
  exact noneShared_iff.mpr hinv'.apart

def pooledCreate (name : String) (pool : MetalLBRequest) : CreateClusterBody :=
    ⟨name, "v1.31.0", none, some pool⟩

/-- Two creates that overlap: both are admitted, then each goes on to its end. -/
def overlapped : List (ProcAction Bool AgentOutcome JobStep) :=
  [.call true {}, .call false {}] ++
    List.replicate 12 (.call false { manifest := ⟨true, some "incendio", true⟩, facts :=
      ⟨"10.0.0.1/24", [], []⟩ }) ++
    List.replicate 12 (.call true { manifest := ⟨true, some "incendio", true⟩, facts :=
      ⟨"10.0.0.1/24", [], []⟩ })

def ownPools : Bool → AgentRequest
  | false => .post (pooledCreate "lab" firstPool)
  | true => .post (pooledCreate "dev" secondPool)

def onePool : Bool → AgentRequest
  | false => .post (pooledCreate "lab" firstPool)
  | true => .post (pooledCreate "dev" firstPool)

/-- Two creates with pools of their own, one within the other's time. -/
theorem own_pools_apart : ∃ s,
    Run agent.step (okStep clearSince fun _ _ => True)
      (allRequests (.started Bool .empty) ownPools) s ∧
      s.world.records.rows.map (fun r => (r.name, r.spec.endpointHost)) =
        [("dev", some "10.0.0.253"), ("lab", some "10.0.0.254")] ∧
      NoneShared s.world.records := by
  have hrun : ∃ s, Run agent.step (okStep clearSince fun _ _ => True)
    (allRequests (.started Bool .empty) ownPools) s ∧
      s.world.records.rows.map (fun r => (r.name, r.spec.endpointHost)) =
        [("dev", some "10.0.0.253"), ("lab", some "10.0.0.254")] := by
    apply Run.exists_of_exec overlapped
    decide +kernel
  obtain ⟨s, hs, hrows⟩ := hrun
  have hempty : NoneShared ClusterRepo.empty :=
    noneShared_iff.mpr ⟨fun r hr => (nomatch hr), fun r hr => (nomatch hr)⟩
  exact ⟨s, hs, hrows, addresses_apart hempty (fun _ => Nat.le_refl 0) (fun _ => Nat.le_refl 0) hs⟩

/-- Two creates that overlap get the same pool. -/
theorem one_pool_twice : ∃ s,
    Run agent.step (okStep (fun _ _ _ => True) fun _ _ => True)
      (allRequests (.started Bool .empty) onePool) s ∧
      ¬ NoneShared s.world.records := by
  have hrun : ∃ s,
      Run agent.step (okStep (fun _ _ _ => True) fun _ _ => True)
        (allRequests (.started Bool .empty) onePool) s ∧
        newRecord (pooledCreate "lab" firstPool) (some "10.0.0.254") ∈ s.world.records.rows ∧
        newRecord (pooledCreate "dev" firstPool) (some "10.0.0.253") ∈ s.world.records.rows := by
    apply Run.exists_of_exec overlapped
    decide +kernel
  obtain ⟨s, hs, hlab, hdev⟩ := hrun
  refine ⟨s, hs, fun h => ?_⟩
  have hdisjoint := overlapping_eq_nil.mpr (h.pools _ hlab _ hdev (by decide))
  exact absurd hdisjoint (by decide)

end

end IncusCloud.Agent
